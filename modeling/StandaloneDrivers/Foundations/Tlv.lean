import StandaloneDrivers.Foundations.Memory

/-! Items of a header and a body that stand one behind the other in memory. -/
namespace Foundations

/-- The size of the headers, and the length of a body as its header gives it. -/
structure Tlv where
  header : ℕ
  header_pos : 0 < header
  body : Memory → ℕ → ℕ

namespace Tlv
variable (f : Tlv) (m : Memory)

def size (p : ℕ) : ℕ := f.header + f.body m p

def next (p : ℕ) : ℕ := p + f.size m p

theorem lt_next (p : ℕ) : p < f.next m p := by
  have := f.header_pos
  simp only [next, size]
  omega

theorem header_le_next (p : ℕ) : p + f.header ≤ f.next m p := by
  simp only [next, size]
  omega

/-- The complete items from `pos` on, by their places. -/
def items (stop pos : ℕ) : List ℕ :=
  if f.next m pos ≤ stop then pos :: items stop (f.next m pos) else []
  termination_by stop - pos
  decreasing_by
    have := f.lt_next m pos
    omega

/-- Where the complete items end. -/
def itemsEnd (stop pos : ℕ) : ℕ :=
  if f.next m pos ≤ stop then itemsEnd stop (f.next m pos) else pos
  termination_by stop - pos
  decreasing_by
    have := f.lt_next m pos
    omega

variable {f m} {stop pos p : ℕ}

theorem items_of_complete (h : f.next m pos ≤ stop) :
    f.items m stop pos = pos :: f.items m stop (f.next m pos) := by
  rw [items, if_pos h]

theorem items_of_cut (h : stop < f.next m pos) : f.items m stop pos = [] := by
  rw [items, if_neg (Nat.not_le.mpr h)]

theorem itemsEnd_of_complete (h : f.next m pos ≤ stop) :
    f.itemsEnd m stop pos = f.itemsEnd m stop (f.next m pos) := by
  rw [itemsEnd, if_pos h]

theorem itemsEnd_of_cut (h : stop < f.next m pos) : f.itemsEnd m stop pos = pos := by
  rw [itemsEnd, if_neg (Nat.not_le.mpr h)]

end Tlv

namespace Memory
variable (m : Memory) {p count rest : ℕ}

/-- `rest` bytes are moved over the `count` bytes in front of them. -/
def cut (p count rest : ℕ) : Memory := m.write p (m.read (p + count) rest)

theorem cut_outside {j : ℕ} (h : j < p ∨ p + rest ≤ j) : m.cut p count rest j = m j := by
  apply m.write_outside
  rwa [read_length]

theorem cut_read_same : (m.cut p count rest).read p rest = m.read (p + count) rest := by
  have hread := m.read_write_same p (m.read (p + count) rest)
  rwa [read_length] at hread

end Memory

end Foundations
