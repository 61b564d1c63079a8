import Mathlib.Logic.Function.Iterate
import Rushkit.Buffer

/-! When `rtmp_wb_write` finds room. Up to 2^30 bytes the doubling loop ends; from
a power of two it overflows to zero beyond that and is never left. -/
namespace Rushkit
variable {α : Type}

theorem doubledPower (cap : Int) (n : Nat) : cap * 2 * 2 ^ n = cap * 2 ^ (n+1) := by
  rw [Int.mul_assoc, Int.mul_comm 2, ← Int.pow_succ]

theorem growCapacityEnough (need : Int) (bound : need ≤ 1073741824) (fuel : Nat) (newCap : Int)
    (positive : 0 < newCap) (reach : need ≤ newCap * 2 ^ fuel) :
    ∃ cap, growCapacity (fuel+1) need newCap = some cap ∧ need ≤ cap ∧ 0 < cap := by
  induction fuel generalizing newCap with
  | zero =>
    refine ⟨newCap, ?_, by simpa using reach, positive⟩
    rw [growCapacity, if_neg (by simpa using reach)]
  | succ fuel ih =>
    by_cases more : need > newCap
    · have double : int32 (newCap * 2) = newCap * 2 := int32Same (by omega) (by omega)
      have far : need ≤ newCap * 2 * 2 ^ fuel := by
        rw [doubledPower]
        exact reach
      obtain ⟨cap, found, enough, pos⟩ := ih (newCap * 2) (by omega) far
      exact ⟨cap, by rw [growCapacity, if_pos more, double, found], enough, pos⟩
    · exact ⟨newCap, by rw [growCapacity, if_neg more], by omega, positive⟩

theorem growCapacityZero (need : Int) (positive : 0 < need) (fuel : Nat) :
    growCapacity fuel need 0 = none := by
  induction fuel with
  | zero => rfl
  | succ fuel ih => rw [growCapacity, if_pos positive]; exact ih

theorem growCapacityNegative (need : Int) (positive : 0 < need) (fuel : Nat) :
    growCapacity fuel need (-2147483648) = none := by
  cases fuel with
  | zero => rfl
  | succ fuel =>
    rw [growCapacity, if_pos (by omega)]
    exact growCapacityZero need positive fuel

theorem int32Power {j : Nat} (small : j ≤ 30) : int32 ((2 : Int) ^ j) = 2 ^ j := by
  have low : (0 : Int) < 2 ^ j := Int.pow_pos (by decide)
  have high : (2 : Int) ^ j ≤ 2 ^ 30 := by exact_mod_cast Nat.pow_le_pow_right (by decide) small
  exact int32Same (by omega) (by omega)

/-- Doubling a power of two stays a power of two or wraps and gets stuck. -/
theorem growCapacityPower (need : Int) (positive : 0 < need) (fuel j : Nat) (small : j ≤ 31)
    {cap : Int} (h : growCapacity fuel need (int32 (2 ^ j)) = some cap) :
    ∃ i ≤ 30, cap = 2 ^ i ∧ need ≤ cap := by
  induction fuel generalizing j with
  | zero => simp [growCapacity] at h
  | succ fuel ih =>
    by_cases last : j = 31
    · subst last
      have wrapped : int32 (2 ^ 31) = -2147483648 := by decide
      rw [wrapped, growCapacityNegative need positive] at h
      contradiction
    · rw [int32Power (by omega), growCapacity] at h
      split at h
      · rw [← Int.pow_succ] at h
        exact ih (j+1) (by omega) h
      · rename_i stop
        cases Option.some.inj h
        exact ⟨j, by omega, rfl, by omega⟩

def doubled (cap : Int) : Int := int32 (cap * 2)

theorem doubledIterate (n : Nat) (cap : Int) : doubled^[n+1] cap = int32 (cap * 2 ^ (n+1)) := by
  induction n generalizing cap with
  | zero => rfl
  | succ n ih =>
    have inner : int32 (doubled cap * 2 ^ (n+1)) = int32 (cap * 2 * 2 ^ (n+1)) := Int.bmod_mul_bmod
    rw [Function.iterate_succ_apply, ih, inner, doubledPower]

theorem growCapacityRest (need : Int) (n m : Nat) (cap : Int)
    (h : growCapacity n need cap = none) :
    growCapacity (n+m) need cap = growCapacity m need (doubled^[n] cap) := by
  induction n generalizing cap with
  | zero => simp
  | succ n ih =>
    rw [growCapacity] at h
    split at h
    · rename_i more
      rw [Nat.add_right_comm, growCapacity, if_pos more, Function.iterate_succ_apply]
      exact ih _ h
    · contradiction

/-- After `growFuel` doublings the capacity is zero, so giving up loses no result. -/
theorem growCapacityStuck (need : Int) (positive : 0 < need) (cap : Int)
    (h : growCapacity growFuel need cap = none) (more : Nat) :
    growCapacity (growFuel + more) need cap = none := by
  have zero : doubled^[growFuel] cap = 0 := by
    have multiple : cap * 2 ^ (33+1) = ((2 ^ 32 : Nat) : Int) * (cap * 4) := by omega
    rw [growFuel, doubledIterate, int32, multiple]
    exact Int.mul_bmod_right _ _
  rw [growCapacityRest need growFuel more cap h, zero, growCapacityZero need positive]

/-- `pb` holds exactly `bytes` and can still grow. -/
structure Holds (pb : WriteBuffer UInt8) (bytes : Bytes) : Prop where
  content : pb.content = bytes
  length : pb.length = bytes.length
  positive : 0 < pb.capacity

theorem holdsInit {capacity : Int} (positive : 0 < capacity) :
    Holds (rtmpWbInit capacity) [] := ⟨rfl, rfl, positive⟩

theorem wbCapacityLoop (capacity need : Int) : wbCapacity capacity need =
    (growCapacity (growFuel + 1) need capacity).elim (.error .hang) .ok := by
  rw [wbCapacity, growCapacity]
  split <;> rfl

theorem wbCapacityRoom {capacity : Int} (need : Int) (positive : 0 < capacity) (bound : need ≤ 1073741824) :
    ∃ cap, wbCapacity capacity need = .ok cap ∧ need ≤ cap ∧ 0 < cap := by
  have reach : need ≤ capacity * 2 ^ growFuel := by
    rw [growFuel]
    omega
  obtain ⟨cap, found, enough, pos⟩ := growCapacityEnough need bound growFuel capacity positive reach
  exact ⟨cap, by rw [wbCapacityLoop, found, Option.elim], enough, pos⟩

theorem wbWriteRoom (pb : WriteBuffer α) (data : List α) (len : Nat) (positive : 0 < pb.capacity)
    (bound : pb.length + len ≤ 1073741824) :
    ∃ cap, rtmpWbWrite pb data len = .ok ⟨pb.content ++ data, pb.length + len, cap⟩ ∧ 0 < cap := by
  have need : int32 (pb.length + len) = pb.length + len := int32Same (by omega) (by omega)
  obtain ⟨cap, found, enough, pos⟩ := wbCapacityRoom (pb.length + len) positive (by omega)
  refine ⟨cap, ?_, pos⟩
  simp only [rtmpWbWrite, need, found, Fallible.okBind]
  rw [if_pos (by omega)]

theorem wbWriteBytesHolds {pb : WriteBuffer UInt8} {bytes : Bytes} (h : Holds pb bytes)
    (data : Bytes) (bound : bytes.length + data.length ≤ 1073741824) :
    ∃ pb', rtmpWbWriteBytes pb data = .ok pb' ∧ Holds pb' (bytes ++ data) := by
  obtain ⟨cap, written, pos⟩ := wbWriteRoom pb data data.length h.positive (by rw [h.length]; omega)
  exact ⟨_, written, by rw [h.content], by rw [h.length, List.length_append], pos⟩

/-- The capacity a buffer has that started at a power of two. -/
def PowerCapacity (pb : WriteBuffer α) : Prop :=
  ∃ j ≤ 30, pb.capacity = 2 ^ j ∧ pb.length ≤ pb.capacity

theorem powerCapacityMost {pb : WriteBuffer α} (h : PowerCapacity pb) : pb.capacity ≤ 1073741824 := by
  obtain ⟨j, small, same, _⟩ := h
  have high : (2 : Int) ^ j ≤ 2 ^ 30 := by exact_mod_cast Nat.pow_le_pow_right (by decide) small
  omega

theorem powerCapacityBound {pb : WriteBuffer α} (h : PowerCapacity pb) : pb.length ≤ 1073741824 := by
  have most := powerCapacityMost h
  obtain ⟨_, _, _, fits⟩ := h
  omega

theorem powerCapacityPositive {pb : WriteBuffer α} (h : PowerCapacity pb) : 0 < pb.capacity := by
  obtain ⟨j, small, same, fits⟩ := h
  rw [same]
  exact Int.pow_pos (by decide)

theorem wbCapacityPower {capacity need cap : Int} {j : Nat} (small : j ≤ 30)
    (same : capacity = 2 ^ j) (ok : wbCapacity capacity need = .ok cap) :
    ∃ i ≤ 30, cap = 2 ^ i ∧ need ≤ cap := by
  unfold wbCapacity at ok
  split at ok
  · rename_i grow
    have positive : (0 : Int) < 2 ^ j := Int.pow_pos (by decide)
    cases found : growCapacity growFuel need (int32 (capacity * 2)) with
    | none => simp [found] at ok
    | some newCap =>
      rw [found, Option.elim, Except.ok.injEq] at ok
      subst ok
      rw [same, ← Int.pow_succ] at found
      exact growCapacityPower need (by omega) growFuel (j+1) (by omega) found
  · rename_i room
    cases Except.ok.inj ok
    exact ⟨j, small, same, by omega⟩

theorem wbWritePower {pb pb' : WriteBuffer α} {data : List α} {len : Nat} (h : PowerCapacity pb)
    (ok : rtmpWbWrite pb data len = .ok pb') :
    PowerCapacity pb' ∧ pb'.content = pb.content ++ data ∧ pb'.length = pb.length + len := by
  obtain ⟨j, small, same, fits⟩ := h
  simp only [rtmpWbWrite, Fallible.bindOk] at ok
  obtain ⟨cap, chosen, last⟩ := ok
  obtain ⟨i, le, power, _⟩ := wbCapacityPower small same chosen
  by_cases room : pb.length + len ≤ cap
  case neg => simp [room] at last
  rw [if_pos room] at last
  cases Except.ok.inj last
  exact ⟨⟨i, le, power, room⟩, rfl, rfl⟩

theorem wbWriteHang {pb : WriteBuffer α} (h : PowerCapacity pb) (data : List α) (len : Nat)
    (beyond : 1073741824 < pb.length + len) (int : pb.length + len < 2147483648) :
    rtmpWbWrite pb data len = .error .hang := by
  obtain ⟨j, small, same, fits⟩ := h
  have high : (2 : Int) ^ j ≤ 2 ^ 30 := by exact_mod_cast Nat.pow_le_pow_right (by decide) small
  have need : int32 (pb.length + len) = pb.length + len := int32Same (by omega) (by omega)
  have grow : (pb.length + len : Int) > pb.capacity := by omega
  have stuck : wbCapacity pb.capacity (pb.length + len) = .error .hang := by
    cases found : growCapacity growFuel (pb.length + len) (int32 (pb.capacity * 2)) with
    | none => rw [wbCapacity, if_pos grow, found, Option.elim]
    | some cap =>
      rw [same, ← Int.pow_succ] at found
      obtain ⟨i, le, power, enough⟩ := growCapacityPower _ (by omega) growFuel (j+1) (by omega) found
      have top : (2 : Int) ^ i ≤ 2 ^ 30 := by exact_mod_cast Nat.pow_le_pow_right (by decide) le
      omega
  simp only [rtmpWbWrite, need, stuck, Fallible.errorBind]

/-- A write that one doubling makes room for. -/
theorem wbCapacityTwice {capacity need : Int} (positive : 0 < capacity) (bound : need ≤ 1073741824)
    (twice : need ≤ capacity * 2) :
    wbCapacity capacity need = .ok (if need ≤ capacity then capacity else capacity * 2) := by
  by_cases room : need ≤ capacity
  · rw [wbCapacity, if_neg (by omega), if_pos room]
  · have double : int32 (capacity * 2) = capacity * 2 := int32Same (by omega) (by omega)
    rw [wbCapacity, if_pos (by omega), double, if_neg room, growFuel, growCapacity, if_neg (by omega)]
    rfl

theorem powerInit {capacity : Int} {j : Nat} (small : j ≤ 30) (power : capacity = 2 ^ j) :
    PowerCapacity (rtmpWbInit (α := α) capacity) := by
  subst power
  exact ⟨j, small, rfl, (Int.pow_pos (by decide)).le⟩

/- A buffer that elements of `width` bytes are stored in, one write for each. -/
structure Stored (pb : WriteBuffer α) (stored width : Nat) : Prop where
  power : PowerCapacity pb
  length : pb.length = stored * width

theorem storedInit {capacity : Int} {j : Nat} (small : j ≤ 30) (power : capacity = 2 ^ j)
    (width : Nat) : Stored (rtmpWbInit capacity : WriteBuffer α) 0 width :=
  ⟨powerInit small power, (Nat.zero_mul width).symm⟩

theorem storedRoom {pb : WriteBuffer α} {stored width : Nat} (h : Stored pb stored width)
    (data : List α) (room : (stored + 1) * width ≤ 1073741824) :
    ∃ pb', rtmpWbWrite pb data width = .ok pb' ∧ pb'.content = pb.content ++ data ∧
      Stored pb' (stored + 1) width := by
  rw [Nat.succ_mul] at room
  have length := h.length
  obtain ⟨cap, written, _⟩ := wbWriteRoom pb data width (powerCapacityPositive h.power) (by omega)
  obtain ⟨power, content, grown⟩ := wbWritePower h.power written
  exact ⟨_, written, content, power, by rw [grown, length, Nat.succ_mul]⟩

/-- An element that is no wider than the capacity makes for one doubling at most. -/
theorem storedTwice {pb : WriteBuffer α} {stored width : Nat} (h : Stored pb stored width)
    (wide : width ≤ pb.capacity) (data : List α) (room : (stored + 1) * width ≤ 1073741824) :
    ∃ pb', rtmpWbWrite pb data width = .ok pb' ∧ pb'.content = pb.content ++ data ∧
      Stored pb' (stored + 1) width ∧
      pb'.capacity = if ((stored + 1) * width : Nat) ≤ pb.capacity then pb.capacity else pb.capacity * 2 := by
  obtain ⟨pb', written, content, stored'⟩ := storedRoom h data room
  have positive := powerCapacityPositive h.power
  obtain ⟨_, _, _, fits⟩ := h.power
  have length := h.length
  have need : (stored + 1) * width = pb.length + width := by rw [Nat.succ_mul, length]
  have int : int32 (pb.length + width) = ((stored + 1) * width : Nat) := by
    rw [int32Same (by omega) (by omega), need, Int.natCast_add]
  have bound : (((stored + 1) * width : Nat) : Int) ≤ 1073741824 := by omega
  have twice := wbCapacityTwice positive bound (by omega)
  refine ⟨pb', written, content, stored', ?_⟩
  rw [rtmpWbWrite, int, twice, Fallible.okBind, if_pos (by split <;> omega)] at written
  cases written
  rfl

theorem storedFull {pb : WriteBuffer α} {stored width : Nat} (h : Stored pb stored width)
    (data : List α) (small : width ≤ 64) (full : ¬ (stored + 1) * width ≤ 1073741824) :
    rtmpWbWrite pb data width = .error .hang := by
  rw [Nat.succ_mul] at full
  have length := h.length
  have bound := powerCapacityBound h.power
  exact wbWriteHang h.power data width (by omega) (by omega)

/- `write` appends `data`: it succeeds while the total stays within 2^30 bytes, and a
success from a buffer that started at a power of two appends nothing else. -/
structure Writes (write : WriteBuffer UInt8 → Res (WriteBuffer UInt8)) (data : Bytes) : Prop where
  room : ∀ pb bytes, Holds pb bytes → bytes.length + data.length ≤ 1073741824 →
    ∃ pb', write pb = .ok pb' ∧ Holds pb' (bytes ++ data)
  exact : ∀ pb pb', PowerCapacity pb → write pb = .ok pb' → PowerCapacity pb' ∧
    pb'.content = pb.content ++ data ∧ pb'.length = pb.length + data.length

theorem writesBytes (data : Bytes) : Writes (fun pb => rtmpWbWriteBytes pb data) data where
  room _ _ h bound := wbWriteBytesHolds h data bound
  exact _ _ h ok := wbWritePower h ok

theorem writesByte (src : Int) : Writes (fun pb => rtmpWbWriteByte pb src) [UInt8.ofInt src] :=
  writesBytes _

theorem writesShort (src : Int) : Writes (fun pb => rtmpWbWriteShort pb src)
    (loadData (hostBytes 2 (BitVec.ofInt 16 src))) := writesBytes _

theorem writesReverseInt (src : Int) : Writes (fun pb => rtmpWbWriteReverseInt pb src)
    (loadDataReverse (hostBytes 4 (BitVec.ofInt 32 src))) := writesBytes _

theorem writesMediumInt (e : Int) : Writes (fun pb => rtmpWbWriteMediumInt pb e) (mediumBytes e) :=
  writesBytes _

theorem writesNothing : Writes (fun pb => .ok pb) [] where
  room pb bytes h _ := ⟨pb, rfl, by rw [List.append_nil]; exact h⟩
  exact pb pb' h ok := by
    cases Except.ok.inj ok
    exact ⟨h, (List.append_nil _).symm, rfl⟩

theorem writesThen {first next : WriteBuffer UInt8 → Res (WriteBuffer UInt8)} {xs ys : Bytes}
    (h : Writes first xs) (h' : Writes next ys) :
    Writes (fun pb => first pb >>= next) (xs ++ ys) where
  room pb bytes holds bound := by
    rw [List.length_append] at bound
    obtain ⟨b, ok, held⟩ := h.room pb bytes holds (by omega)
    obtain ⟨c, ok', held'⟩ := h'.room b (bytes ++ xs) held (by rw [List.length_append]; omega)
    refine ⟨c, ?_, by rw [← List.append_assoc]; exact held'⟩
    rw [ok, Fallible.okBind, ok']
  exact pb c power ok := by
    simp only [Fallible.bindOk] at ok
    obtain ⟨b, ok, ok'⟩ := ok
    obtain ⟨power, content, length⟩ := h.exact pb b power ok
    obtain ⟨power', content', length'⟩ := h'.exact b c power ok'
    refine ⟨power', by rw [content', content, List.append_assoc], ?_⟩
    rw [length', length, List.length_append, Nat.add_assoc]

end Rushkit
