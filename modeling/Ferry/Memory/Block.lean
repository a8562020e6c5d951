/-!
# Blocks of native memory

A block is a run of bytes at a base address. Blocks are cut from chunks, so behind the bytes that were
asked for there are some more that can be read and written. Only the bytes up to the last one written
are stored; `Block.byte` is the view that counts, and there every byte that was never written is zero.
-/

namespace Ferry

/-- Who made a block, and the name it goes by. -/
inductive Label where
  | engine (serial : Nat)
  | native (name : String)
  | hidden
deriving DecidableEq, Repr, Inhabited

/-- The name in traces; working storage has none. -/
def Label.text? : Label → Option String
  | engine serial => some ("e" ++ toString serial)
  | native name => some name
  | hidden => none

structure Block where
  base : Nat
  size : Nat
  label : Label
  stored : Array UInt8
deriving Repr, Inhabited

namespace Block

/-- How many bytes the chunk of a block has: chunks are multiples of two words, and one word of each is
not for use. -/
def capacity (b : Block) : Nat :=
  max 24 ((b.size + 23) / 16 * 16 - 8)

theorem size_le_capacity (b : Block) : b.size ≤ b.capacity := by
  unfold capacity; omega

theorem capacity_lt (b : Block) : b.capacity < (b.size / 16 + 2) * 16 := by
  unfold capacity; omega

def covers (b : Block) (a : Nat) : Bool :=
  decide (b.base ≤ a) && decide (a < b.base + b.size)

def reaches (b : Block) (a : Nat) : Bool :=
  decide (b.base ≤ a) && decide (a < b.base + b.capacity)

def Apart (b c : Block) : Prop :=
  b.base + b.capacity ≤ c.base ∨ c.base + c.capacity ≤ b.base

theorem Apart.symm {b c : Block} (h : Apart b c) : Apart c b :=
  Or.symm h

/-- The byte at an offset; zero where nothing was written. -/
def byte (b : Block) (i : Nat) : UInt8 :=
  b.stored[i]?.getD 0

def slice (b : Block) (offset n : Nat) : List UInt8 :=
  (List.range n).map fun k => b.byte (offset + k)

/-- Replaces one byte; an offset outside of the chunk changes nothing. -/
def setByte (b : Block) (i : Nat) (v : UInt8) : Block :=
  if i < b.capacity then
    let stored :=
      if i < b.stored.size then b.stored else b.stored ++ Array.replicate (i + 1 - b.stored.size) 0
    { b with stored := stored.setIfInBounds i v }
  else b

/-- Replaces the bytes from an offset on, as far as the chunk reaches. -/
def write (b : Block) (offset : Nat) : List UInt8 → Block
  | [] => b
  | v :: rest => (b.setByte offset v).write (offset + 1) rest

@[simp] theorem base_setByte (b : Block) (i : Nat) (v : UInt8) : (b.setByte i v).base = b.base := by
  unfold setByte; split <;> rfl

@[simp] theorem size_setByte (b : Block) (i : Nat) (v : UInt8) : (b.setByte i v).size = b.size := by
  unfold setByte; split <;> rfl

@[simp] theorem label_setByte (b : Block) (i : Nat) (v : UInt8) : (b.setByte i v).label = b.label := by
  unfold setByte; split <;> rfl

theorem byte_setByte (b : Block) (i j : Nat) (v : UInt8) (h : i < b.capacity) :
    (b.setByte i v).byte j = if j = i then v else b.byte j := by
  simp only [setByte, h, if_true, byte]
  by_cases hs : i < b.stored.size
  · by_cases hj : j = i
    · subst hj; simp [hs]
    · simp [hs, hj, Ne.symm hj]
  · by_cases hj : j = i
    · subst hj
      simp only [hs, if_false, Array.getElem?_setIfInBounds, if_true, Array.size_append,
        Array.size_replicate]
      rw [if_pos (by omega)]
      rfl
    · simp only [hs, if_false, Array.getElem?_setIfInBounds, if_neg (Ne.symm hj), if_neg hj]
      by_cases hjs : j < b.stored.size
      · rw [Array.getElem?_append_left hjs]
      · rw [Array.getElem?_append_right (by omega), Array.getElem?_replicate]
        have hnone : b.stored[j]? = none := Array.getElem?_eq_none (by omega)
        rw [hnone]
        split <;> rfl

@[simp] theorem base_write (b : Block) (offset : Nat) (bytes : List UInt8) :
    (b.write offset bytes).base = b.base := by
  induction bytes generalizing b offset with
  | nil => rfl
  | cons v rest ih => simp [write, ih]

@[simp] theorem size_write (b : Block) (offset : Nat) (bytes : List UInt8) :
    (b.write offset bytes).size = b.size := by
  induction bytes generalizing b offset with
  | nil => rfl
  | cons v rest ih => simp [write, ih]

@[simp] theorem label_write (b : Block) (offset : Nat) (bytes : List UInt8) :
    (b.write offset bytes).label = b.label := by
  induction bytes generalizing b offset with
  | nil => rfl
  | cons v rest ih => simp [write, ih]

def rewrite (base offset : Nat) (bytes : List UInt8) (b : Block) : Block :=
  if b.base = base then b.write offset bytes else b

@[simp] theorem base_rewrite (base offset : Nat) (bytes : List UInt8) (b : Block) :
    (b.rewrite base offset bytes).base = b.base := by
  unfold rewrite; split <;> simp

@[simp] theorem size_rewrite (base offset : Nat) (bytes : List UInt8) (b : Block) :
    (b.rewrite base offset bytes).size = b.size := by
  unfold rewrite; split <;> simp

@[simp] theorem label_rewrite (base offset : Nat) (bytes : List UInt8) (b : Block) :
    (b.rewrite base offset bytes).label = b.label := by
  unfold rewrite; split <;> simp

end Block

end Ferry
