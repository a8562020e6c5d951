import Ferry.Proofs.Marshal.Dropping
import Ferry.Proofs.Structures.Steps

/-!
# Who owns a structure

The engine counts how many handles own a structure, and a row has these handles: that the two agree, and that a structure
is alive just as long as one of them is there, is the invariant that every step keeps (`Row.Owns`). The events follow it:
they tell of every block that came, and of every block that went with its last owner (`Engine.Accounts`).
-/

set_option autoImplicit false

namespace Ferry

/-! ## Owners in a row -/

/-- The handle owns the structure at an address. -/
def Boxed.owns (b : Boxed) (a : UInt64) : Bool :=
  b.owned && b.address == a

/-- How many handles in the row own the structure at an address. -/
def Row.owning (row : Row) (a : UInt64) : Nat :=
  row.countP fun h => h.any (·.owns a)

namespace Row

variable {row : Row} {place : Nat} {b : Boxed} {a : UInt64}

theorem owning_append (row : Row) (h : Option Boxed) (a : UInt64) :
    Row.owning (row ++ [h]) a = row.owning a + if h.any (·.owns a) then 1 else 0 := by
  simp [owning]

theorem owning_pos (found : row[place]? = some (some b)) (owns : b.owns a = true) : 0 < row.owning a :=
  List.countP_pos_iff.mpr ⟨some b, List.mem_of_getElem? found, owns⟩

theorem owning_set (found : row[place]? = some (some b)) (a : UInt64) :
    Row.owning (row.set place none) a = row.owning a - if b.owns a then 1 else 0 := by
  obtain ⟨inside, there⟩ := List.getElem?_eq_some_iff.mp found
  simp [owning, List.countP_set inside, there]

end Row

/-- The engine counts the owners that the row has, and the structures of the row are blocks, alive as long as they are
owned. -/
structure Row.Owns (row : Row) (s : Engine) : Prop where
  placed : ∀ b, some b ∈ row → ∃ c ∈ s.memory.chunks, c.address = b.address ∧ b.layout.size ≤ c.size
  counted : ∀ a, s.owners.lookup a = if row.owning a = 0 then none else some (row.owning a)
  live : ∀ a, s.memory.Live a ↔ row.owning a ≠ 0

namespace Row.Owns

variable {row row' : Row} {s s' : Engine} {place : Nat} {b : Boxed} {step : HandleStep}

theorem lent (h : row.Owns s) (added : Option Boxed)
    (lent : ∀ b, added = some b → b.owned = false ∧ ∃ c, some c ∈ row ∧ c.address = b.address ∧ c.layout = b.layout) :
    Row.Owns (row ++ [added]) s := by
  have same : ∀ a, Row.owning (row ++ [added]) a = row.owning a := fun a => by
    rw [owning_append]
    cases added with
    | none => rfl
    | some b => simp [Boxed.owns, (lent b rfl).1]
  refine ⟨fun b member => ?_, fun a => by rw [same]; exact h.counted a, fun a => by rw [same]; exact h.live a⟩
  rcases List.mem_append.mp member with old | new
  · exact h.placed b old
  · obtain ⟨-, c, hc, address, layout⟩ := lent b (List.mem_singleton.mp new).symm
    rw [← address, ← layout]
    exact h.placed c hc

theorem shared (h : row.Owns s) {added : Boxed} (owned : added.owned = true)
    (counts : s'.owners.lookup added.address = some (row.owning added.address + 1))
    (others : ∀ a, a ≠ added.address → s'.owners.lookup a = s.owners.lookup a)
    (alive : ∀ a, s'.memory.Live a ↔ s.memory.Live a ∨ a = added.address)
    (placed : ∀ b, some b ∈ row ∨ b = added → ∃ c ∈ s'.memory.chunks, c.address = b.address ∧ b.layout.size ≤ c.size) :
    Row.Owns (row ++ [some added]) s' := by
  have more : Row.owning (row ++ [some added]) added.address = row.owning added.address + 1 := by
    rw [owning_append]
    simp [Boxed.owns, owned]
  have same : ∀ a, a ≠ added.address → Row.owning (row ++ [some added]) a = row.owning a := fun a other => by
    rw [owning_append]
    simp [Boxed.owns, Ne.symm other]
  refine ⟨fun b member => ?_, fun a => ?_, fun a => ?_⟩
  · refine placed b ?_
    simpa using member
  · by_cases here : a = added.address
    · rw [here, more, if_neg (Nat.succ_ne_zero _), counts]
    · rw [same a here, others a here]
      exact h.counted a
  · rw [alive]
    by_cases here : a = added.address
    · simp [here, more]
    · rw [same a here, h.live a]
      simp [here]

theorem created (h : row.Owns s) {layout : Layout} {a : UInt64} {s₁ : Engine}
    (made : EngineM.allocate layout.size s = (some a, s₁)) :
    Row.Owns (row ++ [some ⟨layout, a, true⟩]) (EngineM.own a s₁).2 := by
  obtain ⟨memory, allocated, rfl⟩ := EngineM.allocate_some made
  obtain ⟨base, -⟩ := Memory.allocateEngine?_some allocated
  obtain ⟨new, address, -, size, -, alive, chunks⟩ := Memory.allocateEngine?_adds allocated
  have unowned : row.owning a = 0 := by
    by_contra owned
    have := ((h.live a).mpr owned).toNat_lt
    omega
  have free : s.owners.lookup a = none := by rw [h.counted, if_pos unowned]
  refine h.shared rfl ?_ (fun x other => lookup_increment_of_ne other 1 s.owners) alive fun b here => ?_
  · rw [unowned]
    exact lookup_increment_self free
  · show ∃ c ∈ memory.chunks, _
    rcases here with old | rfl
    · obtain ⟨c, hc, place⟩ := h.placed b old
      exact ⟨c, (chunks c).mpr (Or.inr hc), place⟩
    · exact ⟨new, (chunks new).mpr (Or.inl rfl), address, by rw [size]; exact Nat.le_max_left _ _⟩

theorem cloned (h : row.Owns s) (found : row[place]? = some (some b)) :
    Row.Owns (row ++ [some b]) ((Value.boxed b).retain s).2 := by
  have member := List.mem_of_getElem? found
  cases owned : b.owned with
  | false =>
      have quiet : ((Value.boxed b).retain s).2 = s := by simp only [Value.retain, owned]; rfl
      rw [quiet]
      refine h.lent _ fun c same => ?_
      cases same
      exact ⟨owned, b, member, rfl, rfl⟩
  | true =>
      have counts : ((Value.boxed b).retain s).2 = { s with owners := increment b.address 1 s.owners } := by
        simp only [Value.retain, owned]; rfl
      have positive := owning_pos found (a := b.address) (by simp [Boxed.owns, owned])
      have held : s.owners.lookup b.address = some (row.owning b.address) := by rw [h.counted, if_neg (by omega)]
      rw [counts]
      refine h.shared owned (lookup_increment_held held) (fun a other => lookup_increment_of_ne other 1 s.owners)
        (fun a => ?_) fun c here => ?_
      · have alive := (h.live b.address).mpr (by omega)
        exact ⟨Or.inl, fun either => either.elim id fun same => same ▸ alive⟩
      · rcases here with old | rfl
        · exact h.placed c old
        · exact h.placed c member

theorem of_mem_set {c : Boxed} (kept : some c ∈ row.set place none) : some c ∈ row := by
  rcases List.mem_or_eq_of_mem_set kept with old | new
  · exact old
  · cases new

theorem parted (h : row.Owns s) (found : row[place]? = some (some b)) (owned : b.owned = true)
    (counts : s'.owners.lookup b.address = if row.owning b.address = 1 then none else some (row.owning b.address - 1))
    (others : ∀ a, a ≠ b.address → s'.owners.lookup a = s.owners.lookup a)
    (alive : ∀ a, s'.memory.Live a ↔ s.memory.Live a ∧ (a = b.address → row.owning a ≠ 1))
    (chunks : ∀ c ∈ s.memory.chunks, c ∈ s'.memory.chunks) : Row.Owns (row.set place none) s' := by
  have positive := owning_pos found (a := b.address) (by simp [Boxed.owns, owned])
  have fewer : Row.owning (row.set place none) b.address = row.owning b.address - 1 := by
    rw [owning_set found]
    simp [Boxed.owns, owned]
  have same : ∀ a, a ≠ b.address → Row.owning (row.set place none) a = row.owning a := fun a other => by
    rw [owning_set found]
    simp [Boxed.owns, Ne.symm other]
  refine ⟨fun c kept => ?_, fun a => ?_, fun a => ?_⟩
  · obtain ⟨chunk, hc, place⟩ := h.placed c (of_mem_set kept)
    exact ⟨chunk, chunks chunk hc, place⟩
  · by_cases here : a = b.address
    · rw [here, fewer, counts]
      by_cases last : row.owning b.address = 1
      · rw [if_pos last, if_pos (by omega)]
      · rw [if_neg last, if_neg (by omega)]
    · rw [same a here, others a here]
      exact h.counted a
  · rw [alive, h.live a]
    by_cases here : a = b.address
    · subst here
      rw [fewer]
      simp only [forall_const]
      omega
    · simp [same a here, here]

/-- What dropping a handle does: nothing if it is borrowed, else the count goes down, and with the last owner the block goes. -/
theorem release_cases (h : row.Owns s) (found : row[place]? = some (some b)) :
    (b.owned = false ∧ ((Value.boxed b).release s).2 = s) ∨
    (b.owned = true ∧ row.owning b.address = 1 ∧ ∃ counters label, ((Value.boxed b).release s).2 = { s with
      counters, owners := s.owners.filter (·.1 != b.address)
      events := .released b.address label :: s.events, memory := s.memory.release b.address }) ∨
    (b.owned = true ∧ ∃ n, row.owning b.address = n + 2 ∧ ((Value.boxed b).release s).2 = { s with
      owners := (b.address, n + 1) :: s.owners.filter (·.1 != b.address) }) := by
  cases owned : b.owned with
  | false => exact Or.inl ⟨rfl, by simp only [Value.release, owned]; rfl⟩
  | true =>
      have positive := owning_pos found (a := b.address) (by simp [Boxed.owns, owned])
      have held : s.owners.lookup b.address = some (row.owning b.address) := by rw [h.counted, if_neg (by omega)]
      have gone : ((Value.boxed b).release s).2 = (EngineM.disown b.address s).2 := by simp only [Value.release, owned]; rfl
      right
      rw [gone]
      by_cases last : row.owning b.address = 1
      · obtain ⟨counters, -, released⟩ :=
          EngineM.release_eq b.address true { s with owners := s.owners.filter (·.1 != b.address) }
        exact Or.inl ⟨rfl, last, counters, _, by rw [EngineM.disown_last (by rw [held, last]), released]⟩
      · obtain ⟨n, several⟩ : ∃ n, row.owning b.address = n + 2 := Nat.exists_eq_add_of_le' (by omega)
        exact Or.inr ⟨rfl, n, several, EngineM.disown_shared (by rw [held, several])⟩

theorem dropped (h : row.Owns s) (found : row[place]? = some (some b)) :
    Row.Owns (row.set place none) ((Value.boxed b).release s).2 := by
  rcases h.release_cases found with ⟨lent, same⟩ | ⟨owned, last, counters, label, same⟩ | ⟨owned, n, several, same⟩
  · have idle : ∀ a, Row.owning (row.set place none) a = row.owning a := fun a => by
      rw [owning_set found]
      simp [Boxed.owns, lent]
    rw [same]
    exact ⟨fun c kept => h.placed c (of_mem_set kept), fun a => by rw [idle]; exact h.counted a,
      fun a => by rw [idle]; exact h.live a⟩
  · rw [same]
    refine h.parted found owned ?_ (fun a other => lookup_filter_of_ne other s.owners) (fun a => ?_)
      fun c hc => Memory.mem_chunks_release.mpr hc
    · rw [if_pos last]
      exact lookup_filter_self b.address s.owners
    · refine Memory.live_release_iff.trans (and_congr_right fun _ => ?_)
      constructor
      · exact fun other here => absurd here other
      · rintro kept rfl
        exact kept rfl last
  · rw [same]
    refine h.parted found owned ?_ (fun a other => ?_) (fun a => ?_) fun c hc => hc
    · rw [if_neg (by omega), several]
      simp
    · simp only [List.lookup_cons, beq_false_of_ne other]
      exact lookup_filter_of_ne other s.owners
    · refine ⟨fun alive => ⟨alive, ?_⟩, And.left⟩
      rintro rfl
      omega

theorem written (h : row.Owns s) (a : UInt64) (bytes : List UInt8) :
    row.Owns { s with memory := s.memory.write a bytes } := by
  refine ⟨fun b member => ?_, h.counted, fun x => Memory.live_write_iff.trans (h.live x)⟩
  obtain ⟨c, hc, address, fits⟩ := h.placed b member
  obtain ⟨c', hc', base, size⟩ := Memory.samePlaces_write s.memory a bytes c hc
  exact ⟨c', hc', by rw [← address, Block.address, base, Block.address], by rwa [size]⟩

theorem change (h : row.Owns s) (changed : row.Change s step row' s') : row'.Owns s' := by
  cases changed with
  | idle _ _ => exact h
  | blank _ _ => exact h.lent none nofun
  | created layout a s₁ made => exact h.created made
  | cloned place b found => exact h.cloned found
  | borrowed place b found =>
      refine h.lent _ fun c same => ?_
      cases same
      exact ⟨rfl, b, List.mem_of_getElem? found, rfl, rfl⟩
  | dropped place b found => exact h.dropped found
  | written place t offset slot b found admitted => exact h.written _ _

end Row.Owns

/-! ## What the events tell -/

/-- A block was made at the address, whether it is still alive or not. -/
def Memory.Made (m : Memory) (a : UInt64) : Prop :=
  ∃ c ∈ m.chunks, c.address = a

instance (m : Memory) (a : UInt64) : Decidable (m.Made a) :=
  inferInstanceAs (Decidable (∃ c ∈ m.chunks, c.address = a))

theorem Memory.Live.made {m : Memory} {a : UInt64} (alive : m.Live a) : m.Made a := by
  obtain ⟨b, hb, address⟩ := alive
  exact ⟨b, mem_chunks_of_live hb, address⟩

theorem Memory.made_write_iff {m : Memory} {a x : UInt64} {bytes : List UInt8} : (m.write a bytes).Made x ↔ m.Made x := by
  constructor
  · rintro ⟨b, hb, rfl⟩
    unfold write at hb
    split at hb
    · rw [chunks_writeBlock] at hb
      obtain ⟨c, hc, rfl⟩ := List.mem_map.mp hb
      exact ⟨c, hc, by simp [Block.address]⟩
    · exact ⟨b, hb, rfl⟩
  · rintro ⟨b, hb, rfl⟩
    obtain ⟨c, hc, base, -⟩ := samePlaces_write m a bytes b hb
    exact ⟨c, hc, by rw [Block.address, base, Block.address]⟩

/-- The blocks that came and went between two states are those that the events tell of, each of them once. A new block is
alive, and no block comes back. -/
structure Engine.Told (s : Engine) (t : List Event) (s' : Engine) : Prop where
  events : s'.events = t ++ s.events
  gained : ∀ a, (gains t).count (.block a) = if s'.memory.Made a ∧ ¬s.memory.Made a then 1 else 0
  lost : ∀ a, (losses t).count (.block a) = if s.memory.Live a ∧ ¬s'.memory.Live a then 1 else 0
  made : ∀ a, s.memory.Made a → s'.memory.Made a
  live : ∀ a, s'.memory.Live a → s.memory.Live a ∨ ¬s.memory.Made a
  born : ∀ a, s'.memory.Made a → s.memory.Made a ∨ s'.memory.Live a

namespace Engine.Told

variable {s s' : Engine}

theorem quiet (events : s'.events = s.events) (made : ∀ a, s'.memory.Made a ↔ s.memory.Made a)
    (live : ∀ a, s'.memory.Live a ↔ s.memory.Live a) : s.Told [] s' where
  events := events
  gained a := by simp [gains, made]
  lost a := by simp [losses, live]
  made a := (made a).mpr
  live a alive := Or.inl ((live a).mp alive)
  born a there := Or.inl ((made a).mp there)

theorem of_memory (events : s'.events = s.events) (memory : s'.memory = s.memory) : s.Told [] s' :=
  quiet events (fun _ => by rw [memory]) fun _ => by rw [memory]

theorem created {size : Nat} {a : UInt64} (made : EngineM.allocate size s = (some a, s')) :
    ∃ e, gains [e] = [.block a] ∧ losses [e] = [] ∧ s.Told [e] s' := by
  obtain ⟨memory, allocated, rfl⟩ := EngineM.allocate_some made
  obtain ⟨base, -⟩ := Memory.allocateEngine?_some allocated
  obtain ⟨new, address, -, -, -, alive, chunks⟩ := Memory.allocateEngine?_adds allocated
  have fresh : ¬s.memory.Made a := by
    rintro ⟨c, hc, rfl⟩
    have := Memory.base_lt_frontier hc
    rw [Memory.toNat_address hc] at base
    omega
  have grown : ∀ x, memory.Made x ↔ s.memory.Made x ∨ x = a := fun x => by
    simp only [Memory.Made, chunks]
    constructor
    · rintro ⟨c, rfl | hc, rfl⟩
      · exact Or.inr address
      · exact Or.inl ⟨c, hc, rfl⟩
    · rintro (⟨c, hc, rfl⟩ | rfl)
      · exact ⟨c, Or.inr hc, rfl⟩
      · exact ⟨new, Or.inl rfl, address⟩
  refine ⟨_, rfl, rfl, rfl, fun x => ?_, fun x => ?_, fun x before => (grown x).mpr (Or.inl before), fun x now => ?_,
    fun x now => ?_⟩
  · simp only [grown]
    by_cases here : x = a
    · simp [gains, Event.gained?, here, fresh]
    · simp [gains, Event.gained?, here, Ne.symm here]
  · rw [if_neg fun gone => gone.2 ((alive x).mpr (Or.inl gone.1))]
    rfl
  · exact ((alive x).mp now).imp_right fun here => by rwa [here]
  · exact ((grown x).mp now).imp_right fun here => (alive x).mpr (Or.inr here)

theorem released {a : UInt64} (alive : s.memory.Live a) {e : Event} (lost : e.lost? = some (.block a))
    (gained : e.gained? = none) (events : s'.events = e :: s.events) (memory : s'.memory = s.memory.release a) :
    s.Told [e] s' := by
  have made : ∀ x, s'.memory.Made x ↔ s.memory.Made x := fun x => by
    simp only [Memory.Made, memory, Memory.mem_chunks_release]
  refine ⟨events, fun x => by simp [gains, gained, made], fun x => ?_, fun x => (made x).mpr, fun x now => ?_,
    fun x now => Or.inl ((made x).mp now)⟩
  · simp only [memory, Memory.live_release_iff]
    by_cases here : x = a
    · simp [losses, lost, here, alive]
    · simp [losses, lost, here, Ne.symm here]
  · rw [memory] at now
    exact Or.inl (Memory.live_release_iff.mp now).1

end Engine.Told

/-- The structure whose last owner a step drops. -/
def HandleStep.abandons (row : Row) : HandleStep → List Resource
  | .drop place =>
    match row[place]? with
    | some (some b) => if b.owned && row.owning b.address == 1 then [.block b.address] else []
    | _ => []
  | _ => []

theorem HandleStep.abandons_reverse (row : Row) (step : HandleStep) : (step.abandons row).reverse = step.abandons row := by
  cases step with
  | drop place =>
      simp only [abandons]
      split
      · split <;> rfl
      · rfl
  | _ => rfl

theorem HandleStep.Idle.abandons {row : Row} {step : HandleStep} (idle : step.Idle row) : step.abandons row = [] := by
  cases step with
  | drop place =>
      simp only [HandleStep.abandons]
      split
      · rename_i b found
        exact absurd found (idle b)
      · rfl
  | _ => rfl

theorem HandleStep.Adds.abandons {step : HandleStep} (adds : step.Adds) (row : Row) : step.abandons row = [] := by
  cases step with
  | drop _ => cases adds
  | _ => rfl

theorem Row.Change.told {row row' : Row} {s s' : Engine} {step : HandleStep} (changed : row.Change s step row' s')
    (h : row.Owns s) : ∃ t, s.Told t s' ∧ losses t = step.abandons row := by
  cases changed with
  | idle _ idle => exact ⟨[], .of_memory rfl rfl, idle.abandons.symm⟩
  | blank _ adds => exact ⟨[], .of_memory rfl rfl, (adds.abandons row).symm⟩
  | created layout a s₁ made =>
      obtain ⟨e, -, kept, told⟩ := Engine.Told.created made
      exact ⟨[e], ⟨told.events, told.gained, told.lost, told.made, told.live, told.born⟩, kept⟩
  | cloned place b found =>
      refine ⟨[], .of_memory ?_ ?_, rfl⟩ <;>
      · simp only [Value.retain]
        split <;> rfl
  | borrowed place b found => exact ⟨[], .of_memory rfl rfl, rfl⟩
  | dropped place b found =>
      simp only [HandleStep.abandons, found]
      rcases h.release_cases found with ⟨lent, same⟩ | ⟨owned, last, counters, label, same⟩ | ⟨owned, n, several, same⟩
      · rw [same]
        exact ⟨[], .of_memory rfl rfl, by simp [lent, losses]⟩
      · rw [same]
        exact ⟨_, .released ((h.live b.address).mpr (by omega)) rfl rfl rfl rfl,
          by simp [owned, last, losses, Event.lost?]⟩
      · rw [same]
        exact ⟨[], .of_memory rfl rfl, by simp [several, losses]⟩
  | written place t offset slot b found admitted =>
      exact ⟨[], .quiet rfl (fun _ => Memory.made_write_iff) fun _ => Memory.live_write_iff, rfl⟩

/-- The events of a whole run account for its blocks: each was made once, and released once if it is not alive any more. -/
structure Engine.Accounts (t : List Event) (s : Engine) : Prop where
  made : ∀ a, (gains t).count (.block a) = if s.memory.Made a then 1 else 0
  lost : ∀ a, (losses t).count (.block a) = if s.memory.Made a ∧ ¬s.memory.Live a then 1 else 0

theorem Engine.Accounts.next {t t' : List Event} {s s' : Engine} (accounts : s.Accounts t) (told : s.Told t' s') :
    s'.Accounts (t ++ t'.reverse) := by
  have gains_reverse : gains t'.reverse = (gains t').reverse := List.filterMap_reverse
  have losses_reverse : losses t'.reverse = (losses t').reverse := List.filterMap_reverse
  refine ⟨fun a => ?_, fun a => ?_⟩
  · rw [gains_append, gains_reverse, List.count_append, List.count_reverse, accounts.made, told.gained]
    by_cases before : s.memory.Made a
    · simp [before, told.made a before]
    · simp [before]
  · rw [losses_append, losses_reverse, List.count_append, List.count_reverse, accounts.lost, told.lost]
    by_cases before : s.memory.Made a
    · have still := told.made a before
      by_cases alive : s.memory.Live a
      · simp [before, alive, still]
      · have gone : ¬s'.memory.Live a := fun now => (told.live a now).elim alive (· before)
        simp [before, alive, still, gone]
    · have unborn : ¬s.memory.Live a := fun alive => before alive.made
      have fresh : s'.memory.Made a → s'.memory.Live a := fun now => (told.born a now).resolve_left before
      simpa [before, unborn] using fresh

end Ferry
