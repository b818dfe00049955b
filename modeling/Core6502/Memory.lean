import Core6502.Word

/-!
# The address space

A flat space of 65536 bytes, with no difference between RAM, ROM and device registers. All
that can be seen of a memory is what `read` answers: two memories with equal reads are equal,
and a write changes the answer at its own address only.
-/

namespace Core6502

/-- A byte for every 16-bit address. -/
structure Memory where
  bytes : ByteArray
  size_bytes : bytes.size = 65536

namespace Memory

def size : Nat := 65536

theorem lt_size_bytes (m : Memory) (a : UInt16) : a.toNat < m.bytes.size := by
  rw [m.size_bytes]
  exact a.toNat_lt

def blank : Memory where
  bytes := ⟨Array.replicate size 0⟩
  size_bytes := Array.size_replicate

def read (m : Memory) (a : UInt16) : UInt8 := m.bytes.get a.toNat (m.lt_size_bytes a)

def write (m : Memory) (a : UInt16) (v : UInt8) : Memory where
  bytes := m.bytes.set a.toNat v (m.lt_size_bytes a)
  size_bytes := Eq.trans (Array.size_set _) m.size_bytes

@[simp] theorem read_blank (a : UInt16) : blank.read a = 0 := by
  exact Array.getElem_replicate _

@[simp] theorem read_write_self (m : Memory) (a : UInt16) (v : UInt8) :
    (m.write a v).read a = v :=
  Array.getElem_set_self (m.lt_size_bytes a)

theorem read_write_of_ne (m : Memory) {a b : UInt16} (v : UInt8) (h : a ≠ b) :
    (m.write a v).read b = m.read b := by
  have hab : a.toNat ≠ b.toNat := fun e => h (UInt16.toNat_inj.mp e)
  exact Array.getElem_set_ne (m.lt_size_bytes a) (m.lt_size_bytes b) hab

theorem read_write (m : Memory) (a b : UInt16) (v : UInt8) :
    (m.write a v).read b = if a = b then v else m.read b := by
  split
  · next h => rw [h, read_write_self]
  · next h => exact read_write_of_ne m v h

theorem ext_read {m n : Memory} (h : ∀ a, m.read a = n.read a) : m = n := by
  obtain ⟨mb, hm⟩ := m
  obtain ⟨nb, hn⟩ := n
  have hb : mb = nb := by
    apply ByteArray.ext_getElem (hm.trans hn.symm)
    intro i hi _
    have hi' : i < UInt16.size := by rw [hm] at hi; exact hi
    exact h (UInt16.ofNatLT i hi')
  subst hb
  rfl

/-- The word at `a`, its high byte one address further; past $FFFF comes $0000. -/
def readWord (m : Memory) (a : UInt16) : UInt16 := Word.ofBytes (m.read a) (m.read (a + 1))

/-- The word at `a` with both bytes taken from the page of `a`: past the last cell of the page
comes its first. -/
def readInPage (m : Memory) (a : UInt16) : UInt16 :=
  Word.ofBytes (m.read a) (m.read (Word.ofBytes (Word.low a + 1) (Word.high a)))

/-- The word at `offset` in the zero page; past the last cell of the page comes its first. -/
def readZeroPage (m : Memory) (offset : UInt8) : UInt16 :=
  Word.ofBytes (m.read offset.toUInt16) (m.read (offset + 1).toUInt16)

/-- Writes bytes one after another from `a` on; past $FFFF comes $0000, so of a list longer
than the space the last bytes win. -/
def load (m : Memory) (a : UInt16) : List UInt8 → Memory
  | [] => m
  | v :: vs => (m.write a v).load (a + 1) vs

theorem load_append (m : Memory) (a : UInt16) (vs ws : List UInt8) :
    m.load a (vs ++ ws) = (m.load a vs).load (a + UInt16.ofNat vs.length) ws := by
  induction vs generalizing m a with
  | nil => simp [load]
  | cons v vs ih =>
    have hl : a + 1 + UInt16.ofNat vs.length = a + UInt16.ofNat (vs.length + 1) := by
      rw [UInt16.ofNat_add, UInt16.add_assoc, UInt16.add_comm (UInt16.ofNat vs.length)]
      rfl
    rw [List.cons_append, load, load, ih, hl, List.length_cons]

def writeAll (m : Memory) (stores : List (UInt16 × UInt8)) : Memory :=
  stores.foldl (fun m store => m.write store.1 store.2) m

@[simp] theorem writeAll_nil (m : Memory) : m.writeAll [] = m := rfl

@[simp] theorem writeAll_cons (m : Memory) (a : UInt16) (v : UInt8)
    (stores : List (UInt16 × UInt8)) :
    m.writeAll ((a, v) :: stores) = (m.write a v).writeAll stores := rfl

theorem read_writeAll_of_notMem {m : Memory} {a : UInt16} {stores : List (UInt16 × UInt8)}
    (h : a ∉ stores.map Prod.fst) : (m.writeAll stores).read a = m.read a := by
  induction stores generalizing m with
  | nil => rfl
  | cons store stores ih =>
    rw [List.map_cons, List.mem_cons, not_or] at h
    rw [writeAll_cons, ih h.2, read_write_of_ne m store.2 (Ne.symm h.1)]

end Memory

end Core6502
