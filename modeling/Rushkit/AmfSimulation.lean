import Rushkit.AmfReached

/-! Strings, tables and arrays: the places in memory that the decoder fills, against the values
that it returns. -/
namespace Rushkit.Amf.Raw
open ByteMemory

-- What a decoder leaves in the `room` bytes at `p`.
section Places
variable (room p : Nat) (mem : Memory) (F : Set Nat)

def StringAt (content : Bytes) : Prop := akSize ≤ room ∧ HoldsString mem F p content

def TableAt (elements : List (AkTableElem AV)) : Prop :=
  akSize ≤ room ∧ intAt mem p = elements.length ∧ HoldsElems mem F (pointerAt mem (p + 8)) elements

def ArrayAt (elements : List AV) : Prop :=
  akSize ≤ room ∧ intAt mem p = elements.length ∧ HoldsValues mem F (pointerAt mem (p + 8)) elements

def ValueAt (v : AV) : Prop := width v ≤ room ∧ Holds mem F p v

end Places

section Strings
variable {process : Process} {frame : Nat} {m : Machine} {ap : AP} {S : Set Nat}

-- What the decoder of values returns is in memory, with everything behind its pointers in `F`.
def Yields {α : Type} (process : Process) (frame : Nat) (m : Machine) (S W : Set Nat)
    (post : Memory → Set Nat → α → Prop) (r : α × Int × AP) (r' : Int × Machine) : Prop :=
  r'.1 = r.2.1 ∧ ∃ F, Reached process frame m S W r'.2 r.2.2 F ∧ post r'.2.bytes F r.1

theorem zstrSim {p room : Nat} (world : World process m ap S) (has : process.Has m.ppool.trunks p room)
    (used : extent p room ⊆ known process frame S) :
    Simulates (Yields process frame m S (extent p room) (StringAt room p))
      (Amf.unpackZstr room ap) (process.unpackZstr p m) := by
  rw [Amf.unpackZstr, unpackShort, Process.unpackZstr]
  simp only [bind_assoc]
  refine simulatesBind (readSim (reachedHere frame (extent p room) world rfl rfl) 2) ?_
  rintro ⟨_, ap₀⟩ ⟨size, m₀⟩ ⟨rfl, two, _, pool, start⟩
  simp only [Fallible.okBind]
  refine simulatesStore fun fits => ?_
  rw [← wireShort]
  have low : -32768 ≤ wireShort size := BitVec.le_toInt (ofHostBytes 16 (loadData size))
  have high : wireShort size < 32768 := BitVec.toInt_lt
  obtain ⟨m₁, store₁, stored, pool₁, _, first⟩ := storedInt start (x := wireShort size) (by omega) (by omega)
    (Process.hasFront (pool ▸ has) (Nat.le_trans (by decide) fits))
    (Set.inter_subset_right.trans (extentFront (Nat.le_trans (by decide) fits)))
  rw [store₁, Fallible.okBind, stored]
  rcases requestSim first (unsignedInt (wireShort size)) with none | ⟨q, m₂, some, bytes, address, own, _, apart, second⟩
  · rw [none]
    exact .exhausted _
  rw [some, Fallible.okBind]
  rw [Set.empty_union] at second
  dsimp only at own apart second ⊢
  generalize ap₀.request (unsignedInt (wireShort size)) = block at own apart second ⊢
  obtain ⟨block, ap₁⟩ := block
  dsimp only at own apart second ⊢
  obtain ⟨m₃, store₃, pointer, pool₃, kept₃, third⟩ := storedPointer second address
    (Process.hasPart (Process.hasMore second.trunks has) fits) (Set.inter_subset_right.trans (extentPart fits))
  have stored₃ : intAt m₃.bytes p = wireShort size := by
    rw [intKept (kept₃.mono (extentsApart (n := 4) (m := 8) (.inl (by omega))).subset_compl_right), bytes]
    exact stored
  rw [store₃, Fallible.okBind, stored₃]
  refine simulatesBind (peekSim third.world (wireShort size)) ?_
  rintro ⟨_, ap₂⟩ content ⟨rfl, length, world'⟩
  dsimp only at world' ⊢
  refine simulatesStore fun room' => ?_
  have known₄ : known process frame S ⊆ (extent q content.length)ᶜ :=
    (apart.mono_right (extentFront room')).subset_compl_right
  obtain ⟨m₄, store₄, content₄, pool₄, kept₄, fourth⟩ := storedBytes third content (Process.hasFront (pool₃ ▸ own) room')
    (unwritten (apart.mono_right (extentFront room')))
  have field {k n : Nat} (fits' : k + n ≤ akSize) : extent (p + k) n ⊆ (extent q content.length)ᶜ :=
    (extentPart (Nat.le_trans fits' fits)).trans (used.trans known₄)
  have stored₄ : intAt m₄.bytes p = wireShort size := (intKept (kept₄.mono (field (k := 0) (by decide)))).trans stored₃
  have pointer₄ : pointerAt m₄.bytes (p + 8) = q := (pointerKept (kept₄.mono (field (by decide)))).trans pointer
  rw [pointer, store₄, Fallible.okBind, stored₄]
  refine .ok ⟨rfl, extent q block, reachedMove fourth (worldMove world' pool₄ ?_) rfl rfl, fits, ?_, ?_, ?_⟩
  · rw [Machine.advance, Machine.advance, fourth.world.src, third.world.src]
  · exact stored₄.trans length.symm
  · rw [Machine.advance, pointer₄]
    exact extentFront room'
  · rw [Machine.advance, pointer₄]
    exact content₄

end Strings

-- The decoder of values at any place that is in use.
def Implements (process : Process) (decoder : Nat → Decoder AV) (run : Nat → Nat → Run Int) : Prop :=
  ∀ {frame : Nat} {m : Machine} {ap : AP} {S : Set Nat} {p room : Nat}, process.stack ≤ frame → World process m ap S →
    process.Has m.ppool.trunks p room → extent p room ⊆ known process frame S →
      Simulates (Yields process frame m S (extent p room) (ValueAt room p)) (decoder room ap) (run frame p m)

section Elements
variable {process : Process} {frame : Nat} {decoder : Nat → Decoder AV} {run : Nat → Nat → Run Int}

theorem elemsSim (implements : Implements process decoder run) (above : process.stack ≤ frame) (left : Nat) {m : Machine}
    {ap : AP} {S : Set Nat} {ptable base i room : Nat} {p : Nat} (place : p = base + i * tableElemSize) (rsum : Int)
    (world : World process m ap S) (has : process.Has m.ppool.trunks p room)
    (used : extent p room ⊆ known process frame S) (pointer : pointerAt m.bytes (ptable + 8) = base)
    (holder : extent (ptable + 8) 8 ⊆ known process frame S) (apart : Disjoint (extent (ptable + 8) 8) (extent p room)) :
    Simulates (fun r r' => r'.1.1 = i + r.1.length ∧ r.1.length ≤ left ∧ r'.1.2 = rsum + r.2.1 ∧
        ∃ F, Reached process frame m S (extent p room) r'.2 r.2.2 F ∧ HoldsElems r'.2.bytes (extent p room ∪ F) p r.1)
      (Amf.unpackElems decoder left room ap) (process.unpackElems run frame ptable left i rsum m) := by
  induction left generalizing m ap S i room p rsum with
  | zero =>
    rw [Amf.unpackElems, Process.unpackElems]
    exact .ok ⟨rfl, Nat.le_refl _, (Int.add_zero rsum).symm, ∅, reachedHere frame _ world rfl rfl, trivial⟩
  | succ left ih =>
    rw [Amf.unpackElems, Process.unpackElems]
    dsimp only
    rw [pointer, ← place]
    refine simulatesBind (zstrSim world has used) ?_
    rintro ⟨key, k, ap₁⟩ ⟨_, m₁⟩ ⟨rfl, F₁, first, wide, string⟩
    dsimp only at first string ⊢
    have part : extent (p + akSize) (room - akSize) ⊆ extent p room := extentRest
    refine simulatesBind (implements above first.world (Process.hasRest (Process.hasMore first.trunks has))
      (part.trans (used.trans knownMore))) ?_
    rintro ⟨value, n, ap₂⟩ ⟨_, m₂⟩ ⟨rfl, F₂, second, fits, holds⟩
    dsimp only at second fits holds ⊢
    have both := reachedTrans first second (Set.inter_subset_right.trans part)
    have type := holdsType value holds
    rw [type]
    by_cases ends : value.type = amfEnd
    · rw [if_pos ends, if_pos (by rw [ends])]
      exact .ok ⟨rfl, Nat.zero_le _, Int.add_assoc _ _ _, _, both, trivial⟩
    rw [if_neg ends, if_neg fun same => ends (UInt8.toNat_inj.mp (Int.ofNat_inj.mp same))]
    have rest : extent (p + tableElemSize) (room - tableElemSize) ⊆ extent p room := extentRest
    refine simulatesMap (ih (i := i + 1) (by rw [place, Nat.add_mul, Nat.one_mul, Nat.add_assoc]) _ both.world
      (Process.hasRest (Process.hasMore both.trunks has)) (rest.trans (used.trans knownMore))
      ((pointerKept (reachedKeeps both holder apart)).trans pointer) (holder.trans knownMore)
      (apart.mono_right rest)) ?_
    rintro ⟨elements, s, ap₃⟩ ⟨⟨i', total⟩, m₃⟩ ⟨count, most, sum, F₃, third, tail⟩
    dsimp only at count most sum third tail ⊢
    refine ⟨?_, ?_, ?_, F₁ ∪ F₂ ∪ F₃, reachedTrans both third (Set.inter_subset_right.trans rest), ?_⟩
    · rw [count, List.length_cons]
      omega
    · exact Nat.succ_le_succ most
    · omega
    have narrow := widthBound value
    have head : extent p akSize ⊆ extent p room := extentFront wide
    have whole : extent p (akSize + width value) ⊆ extent p room := extentFront (by omega)
    have after₁ : Set.EqOn m₂.bytes m₁.bytes (F₁ ∪ extent p akSize) := by
      refine reachedKeeps second (Set.union_subset knownFresh (head.trans (used.trans knownMore)))
        (Set.disjoint_union_left.mpr ⟨?_, extentsApart (.inl (Nat.le_refl _))⟩)
      exact ((reachedFresh first).mono_left (part.trans used)).symm
    have after₂ : Set.EqOn m₃.bytes m₂.bytes (F₁ ∪ F₂ ∪ extent p (akSize + width value)) := by
      refine reachedKeeps third (Set.union_subset knownFresh (whole.trans (used.trans knownMore)))
        (Set.disjoint_union_left.mpr ⟨?_, extentsApart (.inl ?_)⟩)
      · exact ((reachedFresh both).mono_left (rest.trans used)).symm
      · unfold avSize at narrow
        unfold akSize tableElemSize
        omega
    have kept : HoldsElems m₃.bytes (extent p room ∪ (F₁ ∪ F₂ ∪ F₃)) (p + tableElemSize) elements :=
      elemsMore (Set.union_subset_union rest Set.subset_union_right) tail
    refine elemsBefore string holds after₁ after₂ (Set.union_subset ?_ (whole.trans Set.subset_union_left)) kept
    exact Set.subset_union_left.trans Set.subset_union_right

theorem assocSim (implements : Implements process decoder run) (above : process.stack ≤ frame) {m : Machine} {ap : AP}
    {S : Set Nat} {ptable room : Nat} (world : World process m ap S) (has : process.Has m.ppool.trunks ptable room)
    (used : extent ptable room ⊆ known process frame S) :
    Simulates (Yields process frame m S (extent ptable room) (TableAt room ptable))
      (Amf.unpackAssocArray decoder room ap) (process.unpackAssocArray run frame ptable m) := by
  rw [Amf.unpackAssocArray, unpackLong, Process.unpackAssocArray]
  simp only [bind_assoc]
  refine simulatesBind (readSim (reachedHere frame (extent ptable room) world rfl rfl) 4) ?_
  rintro ⟨_, ap₀⟩ ⟨size, m₀⟩ ⟨rfl, _, _, pool, start⟩
  simp only [Fallible.okBind]
  rw [← wireInt]
  refine simulatesStore fun fits => ?_
  rcases requestSim start (sizeT (wireInt size * tableElemSize)) with
    none | ⟨q, m₁, some, _, address, own, _, apart, first⟩
  · rw [none]
    exact .exhausted _
  rw [some, Fallible.okBind]
  rw [Set.empty_union] at first
  dsimp only at own apart first ⊢
  generalize ap₀.request (sizeT (wireInt size * tableElemSize)) = block at own apart first ⊢
  obtain ⟨block, ap₁⟩ := block
  dsimp only at own apart first ⊢
  obtain ⟨m₂, store₂, pointer, pool₂, _, second⟩ := storedPointer first address
    (Process.hasPart (Process.hasMore first.trunks has) fits) (Set.inter_subset_right.trans (extentPart fits))
  rw [store₂, Fallible.okBind]
  have holder : extent (ptable + 8) 8 ⊆ known process frame S := (extentPart fits).trans used
  have elems := elemsSim implements above (wireInt size).toNat (i := 0) (p := q) (by rw [Nat.zero_mul, Nat.add_zero]) 4
    second.world (pool₂ ▸ own) knownFresh pointer (holder.trans knownMore) (apart.mono_left holder)
  refine simulatesBind elems ?_
  rintro ⟨elements, s, ap₃⟩ ⟨⟨count, rsum⟩, m₃⟩ ⟨counted, most, sum, F, third, tail⟩
  dsimp only at counted most sum third tail ⊢
  have both := reachedTrans second third (unwritten apart)
  have high : wireInt size < 2147483648 := BitVec.toInt_lt
  have front : extent ptable 4 ⊆ extent ptable room := extentFront (Nat.le_trans (by decide) fits)
  obtain ⟨m₄, store₄, stored, _, kept₄, fourth⟩ := storedInt both (p := ptable) (x := count) (by omega) (by omega)
    (Process.hasFront (Process.hasMore both.trunks has) (Nat.le_trans (by decide) fits))
    (Set.inter_subset_right.trans front)
  rw [store₄, Fallible.okBind]
  have pointer₄ : pointerAt m₄.bytes (ptable + 8) = q := by
    rw [pointerKept (kept₄.mono (extentsApart (.inr (by omega))).subset_compl_right),
      pointerKept (reachedKeeps third (holder.trans knownMore) (apart.mono_left holder)), pointer]
  refine .ok ⟨sum, _, fourth, fits, ?_, ?_⟩
  · rw [stored, counted, Nat.zero_add]
  · dsimp only
    rw [pointer₄]
    refine elemsKept Set.Subset.rfl (kept₄.mono ?_) elements tail
    exact ((reachedFresh both).mono_left (front.trans used)).subset_compl_left

theorem valuesSim (implements : Implements process decoder run) (above : process.stack ≤ frame) (left : Nat) {m : Machine}
    {ap : AP} {S : Set Nat} {parray base i p : Nat} (place : p = base + i * avSize) (rsum : Int)
    (world : World process m ap S) (has : process.Has m.ppool.trunks p (left * avSize))
    (used : extent p (left * avSize) ⊆ known process frame S) (pointer : pointerAt m.bytes (parray + 8) = base)
    (holder : extent (parray + 8) 8 ⊆ known process frame S)
    (apart : Disjoint (extent (parray + 8) 8) (extent p (left * avSize))) :
    Simulates (fun r r' => r.1.length = left ∧ r'.1 = rsum + r.2.1 ∧
        ∃ F, Reached process frame m S (extent p (left * avSize)) r'.2 r.2.2 F ∧
          HoldsValues r'.2.bytes (extent p (left * avSize) ∪ F) p r.1)
      (Amf.unpackValues decoder left ap) (Process.unpackValues run frame parray left i rsum m) := by
  induction left generalizing m ap S i p rsum with
  | zero =>
    rw [Amf.unpackValues, Process.unpackValues]
    exact .ok ⟨rfl, (Int.add_zero rsum).symm, ∅, reachedHere frame _ world rfl rfl, trivial⟩
  | succ left ih =>
    have size : (left + 1) * avSize = avSize + left * avSize := by
      rw [Nat.succ_mul, Nat.add_comm]
    rw [size] at has used apart ⊢
    rw [Amf.unpackValues, Process.unpackValues]
    dsimp only
    rw [pointer, ← place]
    have part : extent p avSize ⊆ extent p (avSize + left * avSize) := extentFront (Nat.le_add_right _ _)
    have rest : extent (p + avSize) (left * avSize) ⊆ extent p (avSize + left * avSize) := extentPart (Nat.le_refl _)
    refine simulatesBind (implements above world (Process.hasFront has (Nat.le_add_right _ _)) (part.trans used)) ?_
    rintro ⟨value, n, ap₁⟩ ⟨_, m₁⟩ ⟨rfl, F₁, first, fits, holds⟩
    dsimp only at first fits holds ⊢
    refine simulatesMap (ih (i := i + 1) (by rw [place, Nat.add_mul, Nat.one_mul, Nat.add_assoc]) _ first.world
      (Process.hasPart (Process.hasMore first.trunks has) (Nat.le_refl _)) (rest.trans (used.trans knownMore))
      ((pointerKept (reachedKeeps first holder (apart.mono_right part))).trans pointer)
      (holder.trans knownMore) (apart.mono_right rest)) ?_
    rintro ⟨values, s, ap₂⟩ ⟨total, m₂⟩ ⟨count, sum, F₂, second, tail⟩
    dsimp only at count sum second tail ⊢
    refine ⟨?_, ?_, F₁ ∪ F₂, reachedTrans (reachedWiden first part) second (Set.inter_subset_right.trans rest), ?_⟩
    · rw [List.length_cons, count]
    · omega
    have narrow := widthBound value
    have head : extent p (width value) ⊆ extent p (avSize + left * avSize) := (extentFront narrow).trans part
    have after : Set.EqOn m₂.bytes m₁.bytes (F₁ ∪ extent p (width value)) := by
      refine reachedKeeps second (Set.union_subset knownFresh (head.trans (used.trans knownMore)))
        (Set.disjoint_union_left.mpr ⟨?_, extentsApart (.inl (by omega))⟩)
      exact ((reachedFresh first).mono_left (rest.trans used)).symm
    refine ⟨head.trans Set.subset_union_left, valueMore ?_ (valueKept after holds), valuesMore ?_ tail⟩
    · exact fun a part => .inr (.inl part)
    · exact Set.union_subset_union rest Set.subset_union_right

-- An array of a negative count would be filled with zeros past the end of any block.
theorem filledBlock {asked : List Nat} {request : Nat} {size : Int} (low : -2147483648 ≤ size)
    (high : size < 2147483648) (filled : sizeT (size * avSize) ≤ rtPool asked request) :
    0 ≤ size ∧ sizeT (size * avSize) = size.toNat * avSize := by
  have bound := rtPoolBound asked request
  have positive : 0 ≤ size * avSize := by
    by_contra negative
    rw [sizeTNegative (by omega) (by rw [avSize]; omega), avSize] at filled
    omega
  rw [sizeTSame positive (by rw [avSize]; omega)]
  rw [avSize] at positive ⊢
  omega

theorem arraySim (implements : Implements process decoder run) (above : process.stack ≤ frame) {m : Machine} {ap : AP}
    {S : Set Nat} {parray room : Nat} (world : World process m ap S) (has : process.Has m.ppool.trunks parray room)
    (used : extent parray room ⊆ known process frame S) :
    Simulates (Yields process frame m S (extent parray room) (ArrayAt room parray))
      (Amf.unpackArray decoder room ap) (process.unpackArray run frame parray m) := by
  rw [Amf.unpackArray, unpackLong, Process.unpackArray]
  simp only [bind_assoc]
  refine simulatesBind (readSim (reachedHere frame (extent parray room) world rfl rfl) 4) ?_
  rintro ⟨_, ap₀⟩ ⟨sz, m₀⟩ ⟨rfl, _, _, pool, start⟩
  simp only [Fallible.okBind]
  rw [← wireInt]
  refine simulatesStore fun filled => simulatesStore fun fits => ?_
  dsimp only at start pool filled ⊢
  have low : -2147483648 ≤ wireInt sz := BitVec.le_toInt (ofHostBytes 32 (loadData sz))
  have high : wireInt sz < 2147483648 := BitVec.toInt_lt
  have filled' := filled
  rw [AP.request, start.world.pool] at filled'
  obtain ⟨positive, size⟩ := filledBlock low high filled'
  have front : extent parray 4 ⊆ extent parray room := extentFront (Nat.le_trans (by decide) fits)
  obtain ⟨m₁, store₁, stored, pool₁, _, first⟩ := storedInt start low high
    (Process.hasFront (pool ▸ has) (Nat.le_trans (by decide) fits)) (Set.inter_subset_right.trans front)
  rw [store₁, Fallible.okBind]
  rcases requestSim first (sizeT (wireInt sz * avSize)) with none | ⟨q, m₂, some, bytes, address, own, _, apart, second⟩
  · rw [none]
    exact .exhausted _
  rw [some, Fallible.okBind]
  rw [Set.empty_union] at second
  dsimp only at own apart second ⊢
  generalize ap₀.request (sizeT (wireInt sz * avSize)) = block at filled own apart second ⊢
  obtain ⟨block, ap₁⟩ := block
  dsimp only at filled own apart second ⊢
  have inside : extent q (sizeT (wireInt sz * avSize)) ⊆ extent q block := extentFront filled
  obtain ⟨m₃, store₃, pool₃, kept₃, third⟩ := storedZeros second (Process.hasFront own filled)
    (unwritten (apart.mono_right inside))
  obtain ⟨m₄, store₄, pointer, pool₄, kept₄, fourth⟩ := storedPointer third address
    (Process.hasPart (Process.hasMore third.trunks has) fits) (Set.inter_subset_right.trans (extentPart fits))
  rw [store₃, Fallible.okBind, store₄, Fallible.okBind]
  have holder : extent (parray + 8) 8 ⊆ known process frame S := (extentPart fits).trans used
  rw [size] at inside filled
  have values := valuesSim implements above (wireInt sz).toNat (i := 0) (p := q) (by rw [Nat.zero_mul, Nat.add_zero]) 4
    fourth.world (Process.hasFront (pool₄ ▸ pool₃ ▸ own) filled) (inside.trans knownFresh) pointer
    (holder.trans knownMore) ((apart.mono_left holder).mono_right inside)
  refine simulatesMap values ?_
  rintro ⟨elements, s, ap₃⟩ ⟨total, m₅⟩ ⟨count, sum, F, fifth, tail⟩
  dsimp only at count sum fifth tail ⊢
  have all := reachedTrans fourth fifth (unwritten (apart.mono_right inside))
  have front₅ : intAt m₅.bytes parray = wireInt sz := by
    rw [intKept (reachedKeeps fifth ((front.trans used).trans knownMore)
        ((apart.mono_left (front.trans used)).mono_right inside)),
      intKept (kept₄.mono (extentsApart (.inl (by omega))).subset_compl_right),
      intKept (kept₃.mono ((apart.mono_left (front.trans used)).mono_right (size ▸ inside)).subset_compl_right),
      bytes, stored]
  have pointer₅ : pointerAt m₅.bytes (parray + 8) = q := by
    rw [pointerKept (reachedKeeps fifth (holder.trans knownMore) ((apart.mono_left holder).mono_right inside)),
      pointer]
  refine ⟨sum, _, all, fits, ?_, ?_⟩
  · rw [front₅, count]
    omega
  · dsimp only
    rw [pointer₅]
    exact valuesMore (Set.union_subset_union_left _ inside) tail

end Elements
end Rushkit.Amf.Raw
