import Rushkit.AmfBuilt

/-! `amf_unpack` after `amf_pack`. A value comes back exactly when each of its hashes fits a
write buffer and the pool has a block for each of its arrays. -/
namespace Rushkit.Amf

-- The requests so far were served in full.
def Served (alloc : Alloc) (asked : List Nat) : Prop := ∀ size ∈ asked, size ≤ alloc size

/- A cursor in a whole block, on a pool that has served what it was asked for. -/
structure Ready (alloc : Alloc) (ap : AP) : Prop where
  steady : ServesAs ap.ppool alloc
  served : Served alloc ap.asked
  whole : ap.len = ap.mem.length

section Serving
variable {alloc : Alloc} {ap : AP} {asked : List Nat} {size : Nat}

theorem servedCons (served : Served alloc asked) (block : size ≤ alloc size) : Served alloc (size :: asked) :=
  List.forall_mem_cons.mpr ⟨block, served⟩

theorem readyWent (ready : Ready alloc ap) (served : Served alloc asked) (n : Nat) :
    Ready alloc (ap.went n asked) := ⟨ready.steady, served, ready.whole⟩

theorem readyAdvance (ready : Ready alloc ap) (n : Nat) : Ready alloc (ap.advance n) :=
  ⟨ready.steady, ready.served, ready.whole⟩

theorem readyRequest (ready : Ready alloc ap) (block : size ≤ alloc size) :
    ap.request size = (ap.ppool ap.asked size, ap.went 0 (size :: ap.asked)) ∧
      size ≤ ap.ppool ap.asked size ∧ Served alloc (size :: ap.asked) := by
  have word : size % 2 ^ 32 = size := Nat.mod_eq_of_lt (ready.steady.word block)
  refine ⟨?_, ready.steady.serves ready.served block, servedCons ready.served block⟩
  rw [AP.request, word]
  rfl

end Serving

-- What a decoder makes of data that the pool has blocks for: a hash too many and it hangs.
def Stores {α : Type} (alloc : Alloc) (hashes : Bool) (good : List Nat → α) (r : Res α) : Prop :=
  if hashes then ∃ asked, Served alloc asked ∧ r = .ok (good asked) else r = .error .hang

section Storing
variable {alloc : Alloc} {α β : Type} {hashes hashes' : Bool} {good : List Nat → α} {r : Res α}

theorem storesOk {asked : List Nat} (served : Served alloc asked) (same : r = .ok (good asked)) :
    Stores alloc true good r := by
  rw [Stores, if_pos rfl]
  exact ⟨asked, served, same⟩

theorem storesHang (good : List Nat → α) : Stores alloc false good (.error .hang) := rfl

theorem storesGood (stores : Stores alloc true good r) : ∃ asked, Served alloc asked ∧ r = .ok (good asked) :=
  stores

theorem storesBind {f : α → Res β} {last : List Nat → β} (first : Stores alloc hashes good r)
    (next : ∀ asked, Served alloc asked → Stores alloc hashes' last (f (good asked))) :
    Stores alloc (hashes && hashes') last (r >>= f) := by
  cases hashes with
  | true =>
    obtain ⟨asked, served, rfl⟩ := storesGood first
    exact next asked served
  | false =>
    have stop : r = .error .hang := first
    rw [stop]
    exact storesHang last

theorem storesThen {f : α → Res β} {last : List Nat → β} (first : Stores alloc hashes good r)
    (next : ∀ asked, f (good asked) = .ok (last asked)) : Stores alloc hashes last (r >>= f) := by
  have both : Stores alloc (hashes && true) last (r >>= f) :=
    storesBind first fun asked served => storesOk served (next asked)
  rw [Bool.and_true] at both
  exact both

end Storing

-- `stored` elements, in a block that has room for the whole capacity.
structure Roomy {α : Type} (pb : PoolBuffer α) (stored size : Nat) : Prop where
  keeps : Keeps pb ⟨stored, pb.buffer.capacity.toNat, pb.block⟩ size
  room : pb.buffer.capacity.toNat ≤ pb.block

section Buffers
variable {alloc : Alloc} {α β : Type} {pb : PoolBuffer α} {stored size : Nat} {ap : AP}

theorem roomyOf {held : Gathering} (keeps : Keeps pb held size) (room : held.capacity ≤ held.block) :
    Roomy pb held.stored size := by
  have same : pb.buffer.capacity.toNat = held.capacity := by
    rw [keeps.capacity, Int.toNat_natCast]
  refine ⟨?_, by rw [same, keeps.block]; exact room⟩
  rw [same, keeps.block]
  exact keeps

theorem roomyInit (ready : Ready alloc ap) {capacity j : Nat} (small : j ≤ 30)
    (power : (capacity : Int) = 2 ^ j) (wide : size ≤ capacity) :
    ∃ block, rtmpWbInitIn capacity ap =
        ((⟨rtmpWbInit capacity, block⟩ : PoolBuffer α), ap.went 0 (capacity :: ap.asked)) ∧
      Roomy (⟨rtmpWbInit capacity, block⟩ : PoolBuffer α) 0 size ∧ Served alloc (capacity :: ap.asked) := by
  have bound : (2 : Int) ^ j ≤ 2 ^ 30 := by exact_mod_cast Nat.pow_le_pow_right (by decide) small
  have block : capacity ≤ alloc capacity := ready.steady.small (by omega)
  obtain ⟨asks, served, after⟩ := readyRequest ready block
  refine ⟨ap.ppool ap.asked capacity, ?_, roomyOf (keepsInit small power wide) served, after⟩
  rw [rtmpWbInitIn, asks]

theorem roomyBound (roomy : Roomy pb stored size) : stored * size ≤ 1073741824 := by
  have bound := powerCapacityBound roomy.keeps.stored.power
  rw [roomy.keeps.stored.length] at bound
  exact bound

theorem roomyFull (roomy : Roomy pb stored size) (small : size ≤ 64)
    (full : ¬ (stored + 1) * size ≤ 1073741824) (elem : α) : rtmpWbWriteIn pb elem size ap = .error .hang :=
  keepsFull roomy.keeps small full elem ap

theorem roomyWrite (ready : Ready alloc ap) (roomy : Roomy pb stored size)
    (fits : (stored + 1) * size ≤ 1073741824) (elem : α) :
    ∃ pb' asked, rtmpWbWriteIn pb elem size ap = .ok (pb', ap.went 0 asked) ∧
      pb'.buffer.content = pb.buffer.content ++ [elem] ∧ Roomy pb' (stored + 1) size ∧ Served alloc asked := by
  obtain ⟨pb', content, keeps, write⟩ := keepsWrite roomy.keeps fits elem ap
  have length := roomy.keeps.stored.length
  have wide := roomy.keeps.wide
  have held := roomy.room
  obtain ⟨_, _, _, inside⟩ := roomy.keeps.stored.power
  dsimp only at wide length
  rw [Gathering.next, Gathering.nextAsked, Gathering.need] at write
  rw [Gathering.next, Gathering.need] at keeps
  dsimp only at write keeps
  split at write
  · rename_i same
    rw [if_pos same] at keeps
    rw [storeRoom (Nat.le_trans same held)] at write
    exact ⟨pb', _, write, content, roomyOf keeps held, ready.served⟩
  · rename_i grows
    rw [if_neg grows] at keeps
    have twice : (stored + 1) * size ≤ pb.buffer.capacity.toNat * 2 := by
      rw [Nat.succ_mul] at *
      omega
    have small : pb.buffer.capacity.toNat * 2 ≤ 1073741824 := by
      have most := powerCapacityMost keeps.stored.power
      have same := keeps.capacity
      dsimp only at same
      omega
    obtain ⟨_, served, after⟩ := readyRequest ready (ready.steady.small small)
    rw [storeRoom (Nat.le_trans twice served)] at write
    exact ⟨pb', _, write, content, roomyOf keeps served, after⟩

theorem storesOne (ready : Ready alloc ap) (roomy : Roomy pb stored size) (x : α) (small : size ≤ 64) {n : Nat}
    {hashes : Bool} {f : PoolBuffer α × AP → Res β} {last : List Nat → β}
    (next : ∀ pb' asked, pb'.buffer.content = pb.buffer.content ++ [x] → Roomy pb' (stored + 1) size →
      Served alloc asked →
      Stores alloc (hashes && decide ((stored + 1 + n) * size ≤ 1073741824)) last (f (pb', ap.went 0 asked))) :
    Stores alloc (hashes && decide ((stored + (n + 1)) * size ≤ 1073741824)) last
      (rtmpWbWriteIn pb x size ap >>= f) := by
  have regroup : stored + (n + 1) = stored + 1 + n := by omega
  rw [regroup]
  by_cases room : (stored + 1) * size ≤ 1073741824
  · obtain ⟨pb', asked, written, content, roomy', served⟩ := roomyWrite ready roomy room x
    rw [written, Fallible.okBind]
    exact next pb' asked content roomy' served
  · have many : ¬ (stored + 1 + n) * size ≤ 1073741824 := by
      rw [Nat.add_mul]
      omega
    rw [roomyFull roomy small room, Fallible.errorBind, decide_eq_false many, Bool.and_false]
    exact storesHang _

end Buffers

theorem unpackDoublePacked {ap : AP} {bits : BitVec 64} {rest : Bytes}
    (h : ap.ahead = packDouble bits ++ rest) : unpackDouble ap = .ok (bits, ap.advance 8) := by
  have read := readSrcAhead h (n := 8) (by simp)
  rw [packDoubleLength] at read
  simp only [unpackDouble, read, Fallible.okBind, packDouble]
  rw [loadedBack 8 (by decide)]

theorem unpackShortPacked {ap : AP} {src : Int} {rest : Bytes}
    (h : ap.ahead = packShort src ++ rest) :
    unpackShort ap = .ok (BitVec.ofInt 16 src, ap.advance 2) := by
  have read := readSrcAhead h (n := 2) (by simp)
  rw [packShortLength] at read
  simp only [unpackShort, read, Fallible.okBind, packShort]
  rw [loadedBack 2 (by decide)]

theorem unpackLongPacked {ap : AP} {src : Int} {rest : Bytes}
    (h : ap.ahead = packLong src ++ rest) :
    unpackLong ap = .ok (BitVec.ofInt 32 src, ap.advance 4) := by
  have read := readSrcAhead h (n := 4) (by simp)
  rw [packLongLength] at read
  simp only [unpackLong, read, Fallible.okBind, packLong]
  rw [loadedBack 4 (by decide)]

theorem shortLength {n : Nat} (small : n ≤ 32767) : (BitVec.ofInt 16 (n : Int)).toInt = n :=
  shortValue (by omega) (by omega)

theorem longCount {n : Nat} (small : n < 2147483648) : (BitVec.ofInt 32 (n : Int)).toInt = n :=
  longValue (by omega) (by omega)

theorem unpackZstrPacked {alloc : Alloc} {ap : AP} (ready : Ready alloc ap) (str : Bytes) {rest : Bytes}
    {room : Nat} (fits : akSize ≤ room) (small : str.length ≤ 32767) (h : ap.ahead = packString str ++ rest) :
    unpackZstr room ap =
      .ok (str, (packString str).length, ap.went (packString str).length (str.length :: ap.asked)) ∧
      Served alloc (str.length :: ap.asked) := by
  have served : str.length ≤ alloc str.length := ready.steady.small (by omega)
  obtain ⟨asks, block, after⟩ := readyRequest (readyAdvance ready 2) served
  rw [AP.advanceAsked] at asks block
  refine ⟨?_, after⟩
  rw [packString, List.append_assoc] at h
  have size := unpackShortPacked h
  have tail := AP.aheadAppend h
  rw [packShortLength] at tail
  have word : unsignedInt (str.length : Int) = str.length := by
    rw [unsignedInt]
    omega
  have behind : ((ap.advance 2).went 0 (str.length :: ap.asked)).ahead = str ++ rest := tail
  have content := readSrcAhead behind (n := str.length) rfl
  have total : 2 + (0 + str.length) = 2 + str.length := by omega
  rw [unpackZstr, size, Fallible.okBind]
  dsimp only
  rw [shortLength small, word, asks]
  dsimp only
  rw [storeRoom fits, Fallible.okBind, content, Fallible.okBind]
  dsimp only
  rw [storeRoom block, Fallible.okBind, AP.wentAdvance, AP.advanceWent, packStringLength, total, Nat.add_comm]
  rfl

-- What decoding the packing of `v` gives, in front of anything, with room for the value.
def Unpacks (alloc : Alloc) (amfUnpack : Nat → Decoder AV) (v : AV) : Prop :=
  ∀ (room : Nat) (ap : AP) (rest : Bytes), avSize ≤ room → Ready alloc ap → ap.ahead = amfPack v ++ rest →
    Stores alloc (hashesFit v) (fun asked => (v, ((amfPack v).length : Int), ap.went (amfPack v).length asked))
      (amfUnpack room ap)

section Packed
variable {alloc : Alloc} (amfUnpack : Nat → Decoder AV)

theorem unpackValuesPacked (values : List AV) (each : ∀ v ∈ values, Unpacks alloc amfUnpack v) (ap : AP)
    (rest : Bytes) (ready : Ready alloc ap) (h : ap.ahead = packValues values ++ rest) :
    Stores alloc (valuesFit values)
      (fun asked => (values, ((packValues values).length : Int), ap.went (packValues values).length asked))
      (unpackValues amfUnpack values.length ap) := by
  induction values generalizing ap with
  | nil => exact storesOk ready.served rfl
  | cons v vs ih =>
    rw [packValues, List.append_assoc] at h
    have head := each v List.mem_cons_self avSize ap _ (Nat.le_refl _) ready h
    rw [List.length_cons, unpackValues, valuesFit]
    refine storesBind head fun asked served => ?_
    have tail := ih (fun x hx => each x (List.mem_cons_of_mem v hx)) _ (readyWent ready served _)
      (AP.aheadPast h asked)
    refine storesThen tail fun asked => ?_
    rw [packValues, List.length_append, AP.wentWent, Int.natCast_add]

theorem unpackElemsPacked (elements : List (AkTableElem AV)) (encodable : ElemsEncodable elements)
    (each : ∀ e ∈ elements, Unpacks alloc amfUnpack e.value) (room : Nat)
    (enough : elements.length * tableElemSize ≤ room) (ap : AP) (rest : Bytes) (ready : Ready alloc ap)
    (h : ap.ahead = packElems elements ++ rest) :
    Stores alloc (elemsFit elements)
      (fun asked => (elements, ((packElems elements).length : Int), ap.went (packElems elements).length asked))
      (unpackElems amfUnpack elements.length room ap) := by
  induction elements generalizing room ap with
  | nil => exact storesOk ready.served rfl
  | cons e es ih =>
    obtain ⟨key, value⟩ := e
    obtain ⟨small, stays, _, encodables⟩ := encodable
    have one : tableElemSize ≤ room ∧ es.length * tableElemSize ≤ room - tableElemSize := by
      rw [List.length_cons, Nat.succ_mul] at enough
      omega
    rw [packElems, List.append_assoc, List.append_assoc] at h
    have wide : akSize ≤ room := Nat.le_trans (by decide) one.1
    obtain ⟨first, served⟩ := unpackZstrPacked ready key wide small h
    have after := AP.aheadPast h (key.length :: ap.asked)
    have head := each ⟨key, value⟩ List.mem_cons_self (room - akSize) _ _
      (Nat.le_sub_of_add_le (Nat.le_trans (by decide) one.1)) (readyWent ready served _) after
    rw [List.length_cons, unpackElems, first, Fallible.okBind, elemsFit]
    refine storesBind head fun asked served => ?_
    dsimp only
    rw [if_neg stays]
    have tail := ih encodables (fun x hx => each x (List.mem_cons_of_mem _ hx)) (room - tableElemSize) one.2 _
      (readyWent (readyWent ready served _) served _) (AP.aheadPast after asked)
    refine storesThen tail fun asked => ?_
    rw [packElems, List.length_append, List.length_append, AP.wentWent, AP.wentWent]
    simp only [Int.natCast_add, Nat.add_assoc, Int.add_assoc]

theorem unpackHashLoopPacked (stop : Unpacks alloc amfUnpack .end) (elements : List (AkTableElem AV))
    (encodable : ElemsEncodable elements) (each : ∀ e ∈ elements, Unpacks alloc amfUnpack e.value) (fuel : Nat)
    (enough : elements.length < fuel) (buffer : PoolBuffer (AkTableElem AV)) {stored : Nat}
    (roomy : Roomy buffer stored tableElemSize) (rsum : Int) (ap : AP) (rest : Bytes) (ready : Ready alloc ap)
    (h : ap.ahead = packHash elements ++ rest) :
    Stores alloc (elemsFit elements && decide ((stored + elements.length) * tableElemSize ≤ 1073741824))
      (fun asked => (buffer.buffer.content ++ elements, rsum + (packHash elements).length,
        ap.went (packHash elements).length asked))
      ((unpackHashLoop amfUnpack fuel buffer rsum ap).map fun r => (r.1.buffer.content, r.2)) := by
  induction elements generalizing fuel buffer stored rsum ap with
  | nil =>
    cases fuel with
    | zero => contradiction
    | succ fuel =>
      rw [packHash, packElems, List.nil_append, List.append_assoc] at h
      obtain ⟨first, served⟩ := unpackZstrPacked ready [] (Nat.le_refl _) (by decide) h
      have ahead : (ap.went (packString []).length (0 :: ap.asked)).ahead = amfPack .end ++ rest := by
        rw [packEndTag]
        exact AP.aheadPast h _
      obtain ⟨asked, served, last⟩ := storesGood (stop avSize _ rest (Nat.le_refl _) (readyWent ready served _) ahead)
      have ended : AV.end.type = amfEnd := rfl
      have size : (packHash []).length = (packString []).length + (amfPack .end).length := rfl
      rw [List.length_nil, Nat.add_zero, decide_eq_true (roomyBound roomy), unpackHashLoop, first, Fallible.okBind]
      dsimp only
      rw [last, Fallible.okBind, if_pos ended, List.append_nil, AP.wentWent]
      refine storesOk served ?_
      rw [size, Int.natCast_add, ← Int.add_assoc]
      rfl
  | cons e es ih =>
    obtain ⟨key, value⟩ := e
    obtain ⟨small, stays, _, encodables⟩ := encodable
    cases fuel with
    | zero => contradiction
    | succ fuel =>
      have split : packHash (⟨key, value⟩ :: es) = packString key ++ (amfPack value ++ packHash es) := by
        simp [packHash, packElems]
      rw [split, List.append_assoc, List.append_assoc] at h
      obtain ⟨first, served⟩ := unpackZstrPacked ready key (Nat.le_refl _) small h
      have after := AP.aheadPast h (key.length :: ap.asked)
      have head := each ⟨key, value⟩ List.mem_cons_self avSize _ _ (Nat.le_refl _) (readyWent ready served _) after
      rw [unpackHashLoop, first, Fallible.okBind, Fallible.bindMap, elemsFit, Bool.and_assoc]
      refine storesBind head fun asked served => ?_
      have ready := readyWent (readyWent ready served (packString key).length) served (amfPack value).length
      dsimp only
      rw [if_neg stays, Fallible.bindMap, List.length_cons]
      refine storesOne ready roomy ⟨key, value⟩ (by decide) fun buffer' asked content roomy' served => ?_
      have tail := ih encodables (fun x hx => each x (List.mem_cons_of_mem _ hx)) fuel
        (Nat.lt_of_succ_lt_succ enough) buffer' roomy' (rsum + (packString key).length + (amfPack value).length)
        _ (readyWent ready served 0) (AP.aheadPast after asked)
      rw [content] at tail
      simp only [split, List.append_assoc, List.singleton_append, List.length_append, AP.wentWent, Nat.add_zero,
        Int.natCast_add, Int.add_assoc, Nat.add_assoc] at tail ⊢
      exact tail

theorem unpackHashPacked (stop : Unpacks alloc amfUnpack .end) (elements : List (AkTableElem AV))
    (encodable : ElemsEncodable elements) (each : ∀ e ∈ elements, Unpacks alloc amfUnpack e.value) {room : Nat}
    (fits : akSize ≤ room) (ap : AP) (rest : Bytes) (ready : Ready alloc ap)
    (h : ap.ahead = packHash elements ++ rest) :
    Stores alloc (elemsFit elements && decide (elements.length * tableElemSize ≤ 1073741824))
      (fun asked => (elements, ((packHash elements).length : Int), ap.went (packHash elements).length asked))
      (unpackHash amfUnpack room ap) := by
  have enough : elements.length < ap.mem.length + 1 := by
    have sizes := congrArg List.length h
    have count := elemsCount elements
    simp only [AP.ahead, packHash, List.length_drop, List.length_append, packElemsLength] at sizes
    omega
  have wide : tableElemSize ≤ 512 := by decide
  obtain ⟨block, init, roomy, served⟩ := roomyInit (α := AkTableElem AV) ready (j := 9) (by decide) (by decide) wide
  have loop := unpackHashLoopPacked amfUnpack stop elements encodable each _ enough ⟨rtmpWbInit 512, block⟩ roomy
    0 (ap.went 0 (512 :: ap.asked)) rest (readyWent ready served 0) (AP.aheadPast (s := []) h _)
  have start : unpackHash amfUnpack room ap = (unpackHashLoop amfUnpack (ap.mem.length + 1)
      ⟨rtmpWbInit 512, block⟩ 0 (ap.went 0 (512 :: ap.asked))).map fun r => (r.1.buffer.content, r.2) := by
    rw [unpackHash, init]
    dsimp only
    rw [storeRoom fits, AP.wentMem]
    cases unpackHashLoop amfUnpack (ap.mem.length + 1) ⟨rtmpWbInit 512, block⟩ 0 (ap.went 0 (512 :: ap.asked)) <;>
      rfl
  rw [Nat.zero_add, Int.zero_add] at loop
  rw [start]
  simp only [AP.wentWent, Nat.zero_add] at loop
  exact loop

theorem unpackAssocArrayPacked (elements : List (AkTableElem AV)) (encodable : ElemsEncodable elements)
    (each : ∀ e ∈ elements, Unpacks alloc amfUnpack e.value) (int : elements.length < 2147483648)
    (block : elements.length * tableElemSize ≤ alloc (elements.length * tableElemSize)) {room : Nat}
    (fits : akSize ≤ room) (ap : AP) (rest : Bytes) (ready : Ready alloc ap)
    (h : ap.ahead = packAssocArray elements ++ rest) :
    Stores alloc (elemsFit elements)
      (fun asked => (elements, ((packAssocArray elements).length : Int),
        ap.went (packAssocArray elements).length asked))
      (unpackAssocArray amfUnpack room ap) := by
  rw [packAssocArray, List.append_assoc] at h
  have size := unpackLongPacked h
  have after := AP.aheadAppend h
  rw [packLongLength] at after
  obtain ⟨asks, covered, served⟩ := readyRequest (readyAdvance ready 4) block
  have bytes : sizeT ((elements.length : Int) * tableElemSize) = elements.length * tableElemSize := by
    rw [sizeTSame (by rw [tableElemSize]; omega) (by rw [tableElemSize]; omega), tableElemSize]
    omega
  rw [unpackAssocArray, size, Fallible.okBind]
  dsimp only
  rw [longCount int, Int.toNat_natCast, bytes, asks]
  dsimp only
  rw [storeRoom fits, Fallible.okBind]
  have tail := unpackElemsPacked amfUnpack elements encodable each _ covered _ rest
    (readyWent (readyAdvance ready 4) served 0) (AP.aheadPast (s := []) after _)
  refine storesThen tail fun asked => ?_
  rw [packAssocArray, List.length_append, packLongLength, Int.natCast_add, AP.wentWent, AP.advanceWent,
    Nat.zero_add]
  rfl

theorem unpackArrayPacked (values : List AV) (each : ∀ v ∈ values, Unpacks alloc amfUnpack v)
    (int : values.length < 2147483648)
    (block : values.length * avSize ≤ alloc (values.length * avSize)) {room : Nat} (fits : akSize ≤ room)
    (ap : AP) (rest : Bytes) (ready : Ready alloc ap) (h : ap.ahead = packArray values ++ rest) :
    Stores alloc (valuesFit values)
      (fun asked => (values, ((packArray values).length : Int), ap.went (packArray values).length asked))
      (unpackArray amfUnpack room ap) := by
  rw [packArray, List.append_assoc] at h
  have size := unpackLongPacked h
  have after := AP.aheadAppend h
  rw [packLongLength] at after
  obtain ⟨asks, covered, served⟩ := readyRequest (readyAdvance ready 4) block
  have bytes : sizeT ((values.length : Int) * avSize) = values.length * avSize := by
    rw [sizeTSame (by rw [avSize]; omega) (by rw [avSize]; omega), avSize]
    omega
  rw [unpackArray, size, Fallible.okBind]
  dsimp only
  rw [longCount int, Int.toNat_natCast, bytes, asks]
  dsimp only
  rw [storeRoom covered, Fallible.okBind, storeRoom fits, Fallible.okBind]
  have tail := unpackValuesPacked amfUnpack values each _ rest (readyWent (readyAdvance ready 4) served 0)
    (AP.aheadPast (s := []) after _)
  refine storesThen tail fun asked => ?_
  rw [packArray, List.length_append, packLongLength, Int.natCast_add, AP.wentWent, AP.advanceWent, Nat.zero_add]
  rfl

end Packed

theorem elemEncodable {elements : List (AkTableElem AV)} (h : ElemsEncodable elements)
    {e : AkTableElem AV} (member : e ∈ elements) : Encodable e.value := by
  induction elements with
  | nil => contradiction
  | cons head tail ih =>
    obtain ⟨key, value⟩ := head
    rcases List.mem_cons.mp member with rfl | inside
    · exact h.2.2.1
    · exact ih h.2.2.2 inside

theorem valueEncodable {values : List AV} (h : ValuesEncodable values) {v : AV}
    (member : v ∈ values) : Encodable v := by
  induction values with
  | nil => contradiction
  | cons head tail ih =>
    rcases List.mem_cons.mp member with rfl | inside
    · exact h.1
    · exact ih h.2 inside

theorem elemBlocks {alloc : Alloc} {elements : List (AkTableElem AV)} (blocks : elemsBlocksFit alloc elements = true)
    {e : AkTableElem AV} (member : e ∈ elements) : blocksFit alloc e.value = true := by
  induction elements with
  | nil => contradiction
  | cons head tail ih =>
    obtain ⟨key, value⟩ := head
    obtain ⟨mine, others⟩ := Bool.and_eq_true_iff.mp blocks
    rcases List.mem_cons.mp member with rfl | inside
    · exact mine
    · exact ih others inside

theorem valueBlocks {alloc : Alloc} {values : List AV} (blocks : valuesBlocksFit alloc values = true) {v : AV}
    (member : v ∈ values) : blocksFit alloc v = true := by
  induction values with
  | nil => contradiction
  | cons head tail ih =>
    obtain ⟨mine, others⟩ := Bool.and_eq_true_iff.mp blocks
    rcases List.mem_cons.mp member with rfl | inside
    · exact mine
    · exact ih others inside

section Values
variable {alloc : Alloc} (amfUnpack : Nat → Decoder AV)

theorem unpackTagged {room : Nat} (fits : avSize ≤ room) {ap : AP} {t : UInt8} {s : Bytes} (ready : Ready alloc ap)
    (h : ap.ahead = t :: s) : typeSize ≤ room ∧ akSize ≤ room - unionOffset ∧ (ap.advance 1).ahead = s ∧
      amfUnpackStep amfUnpack room ap = (do
        let (value, n, ap) ← unpackPayload amfUnpack (room - unionOffset) t (ap.advance 1)
        .ok (value, 1 + n, ap)) := by
  have first : typeSize ≤ room := Nat.le_trans (by decide) fits
  refine ⟨first, Nat.le_sub_of_add_le (Nat.le_trans (by decide) fits), AP.aheadAppend (s := [t]) h, ?_⟩
  exact unpackStepTag amfUnpack first ready.whole h

theorem unpacksPlain (t : PlainTag) : Unpacks alloc (amfUnpackStep amfUnpack) (.plain t) := by
  intro room ap rest fits ready h
  rw [amfPack, packByte, List.singleton_append] at h
  obtain ⟨_, _, _, step⟩ := unpackTagged amfUnpack fits ready h
  rw [step, payloadPlain]
  exact storesOk ready.served rfl

theorem unpacksNumber (bits : BitVec 64) : Unpacks alloc (amfUnpackStep amfUnpack) (.number bits) := by
  intro room ap rest fits ready h
  rw [amfPack, packByte, List.append_assoc, List.singleton_append] at h
  obtain ⟨_, wide, after, step⟩ := unpackTagged amfUnpack fits ready h
  have held : 8 ≤ room - unionOffset := Nat.le_trans (by decide) wide
  rw [step, payloadNumber, unpackDoublePacked after, Fallible.okBind]
  dsimp only
  rw [storeRoom held, amfPack, List.length_append, packDoubleLength]
  exact storesOk ready.served rfl

theorem unpacksBoolean (value : UInt8) : Unpacks alloc (amfUnpackStep amfUnpack) (.boolean value) := by
  intro room ap rest fits ready h
  rw [amfPack, packByte, packByte, List.append_assoc, List.singleton_append, List.singleton_append] at h
  obtain ⟨_, wide, after, step⟩ := unpackTagged amfUnpack fits ready h
  have held : 1 ≤ room - unionOffset := Nat.le_trans (by decide) wide
  rw [step, payloadBoolean, unpackBytePacked after, Fallible.okBind]
  dsimp only
  rw [storeRoom held]
  exact storesOk ready.served rfl

theorem unpacksString (content : Bytes) (small : content.length ≤ 32767) :
    Unpacks alloc (amfUnpackStep amfUnpack) (.string content) := by
  intro room ap rest fits ready h
  rw [amfPack, packByte, List.append_assoc, List.singleton_append] at h
  obtain ⟨_, wide, after, step⟩ := unpackTagged amfUnpack fits ready h
  obtain ⟨payload, served⟩ := unpackZstrPacked (readyAdvance ready 1) content wide small after
  rw [step, payloadString, payload, AP.advanceWent]
  refine storesOk served ?_
  rw [amfPack, packByte, List.length_append, Int.natCast_add]
  rfl

theorem unpacksLink (value : BitVec 16) : Unpacks alloc (amfUnpackStep amfUnpack) (.link value) := by
  intro room ap rest fits ready h
  rw [amfPack, packByte, List.append_assoc, List.singleton_append] at h
  obtain ⟨_, wide, after, step⟩ := unpackTagged amfUnpack fits ready h
  have held : 2 ≤ room - unionOffset := Nat.le_trans (by decide) wide
  have payload := unpackShortPacked after
  rw [BitVec.ofInt_toInt] at payload
  rw [step, payloadLink, payload, Fallible.okBind]
  dsimp only
  rw [storeRoom held, amfPack, List.length_append, packShortLength]
  exact storesOk ready.served rfl

theorem unpacksTagged {α : Type} {hashes : Bool} {room : Nat} {ap : AP} {tag : UInt8} {content : α} {value : AV}
    {keep : α → AV} {decode : Decoder α} {payload : Bytes}
    (stores : Stores alloc hashes (fun asked => (content, (payload.length : Int), (ap.advance 1).went payload.length asked))
      (decode (ap.advance 1)))
    (kept : keep content = value) (packed : amfPack value = tag :: payload)
    (read : unpackPayload amfUnpack (room - unionOffset) tag (ap.advance 1) = (do
      let (content, n, ap) ← decode (ap.advance 1)
      .ok (keep content, n, ap)))
    (step : amfUnpackStep amfUnpack room ap = (do
      let (value, n, ap) ← unpackPayload amfUnpack (room - unionOffset) tag (ap.advance 1)
      .ok (value, 1 + n, ap))) :
    Stores alloc hashes (fun asked => (value, ((amfPack value).length : Int), ap.went (amfPack value).length asked))
      (amfUnpackStep amfUnpack room ap) := by
  rw [step, read]
  refine storesThen (storesThen stores fun asked => rfl) fun asked => ?_
  have count : 1 + (payload.length : Int) = (tag :: payload).length := by
    rw [List.length_cons, Int.natCast_add, Int.add_comm]
    rfl
  dsimp only
  rw [kept, packed, count, AP.advanceWent, List.length_cons, Nat.add_comm 1]

theorem unpacksHash (stop : Unpacks alloc amfUnpack .end) (elements : List (AkTableElem AV))
    (encodable : ElemsEncodable elements) (each : ∀ e ∈ elements, Unpacks alloc amfUnpack e.value) :
    Unpacks alloc (amfUnpackStep amfUnpack) (.hash elements) := by
  intro room ap rest fits ready h
  rw [packHashTag, List.cons_append] at h
  obtain ⟨_, wide, after, step⟩ := unpackTagged amfUnpack fits ready h
  have payload := unpackHashPacked amfUnpack stop elements encodable each wide _ rest (readyAdvance ready 1) after
  rw [hashesFit, Bool.and_comm]
  exact unpacksTagged amfUnpack payload rfl (packHashTag elements) (payloadHash _ _ _) step

theorem unpacksAssocArray (elements : List (AkTableElem AV)) (encodable : ElemsEncodable elements)
    (each : ∀ e ∈ elements, Unpacks alloc amfUnpack e.value) (int : elements.length < 2147483648)
    (block : elements.length * tableElemSize ≤ alloc (elements.length * tableElemSize)) :
    Unpacks alloc (amfUnpackStep amfUnpack) (.assocArray elements) := by
  intro room ap rest fits ready h
  rw [packAssocArrayTag, List.cons_append] at h
  obtain ⟨_, wide, after, step⟩ := unpackTagged amfUnpack fits ready h
  have payload := unpackAssocArrayPacked amfUnpack elements encodable each int block wide _ rest
    (readyAdvance ready 1) after
  exact unpacksTagged amfUnpack payload rfl (packAssocArrayTag elements) (payloadAssocArray _ _ _) step

theorem unpacksArray (values : List AV) (each : ∀ v ∈ values, Unpacks alloc amfUnpack v)
    (int : values.length < 2147483648)
    (block : values.length * avSize ≤ alloc (values.length * avSize)) :
    Unpacks alloc (amfUnpackStep amfUnpack) (.array values) := by
  intro room ap rest fits ready h
  rw [packArrayTag, List.cons_append] at h
  obtain ⟨_, wide, after, step⟩ := unpackTagged amfUnpack fits ready h
  have payload := unpackArrayPacked amfUnpack values each int block wide _ rest (readyAdvance ready 1) after
  exact unpacksTagged amfUnpack payload rfl (packArrayTag values) (payloadArray _ _ _) step

end Values

theorem amfUnpackDepthPacked {alloc : Alloc} (depth : Nat) (v : AV) (encodable : Encodable v)
    (blocks : blocksFit alloc v = true) (deep : amfGetPackSize v ≤ depth) (int : amfGetPackSize v < 2147483648) :
    Unpacks alloc (amfUnpackDepth depth) v := by
  induction depth generalizing v with
  | zero =>
    have := packSizePositive v
    omega
  | succ depth ih =>
    have inner : ∀ w, Encodable w → blocksFit alloc w = true → amfGetPackSize w < amfGetPackSize v →
        Unpacks alloc (amfUnpackDepth depth) w :=
      fun w ok fit less => ih w ok fit (by omega) (by omega)
    cases v with
    | plain t => exact unpacksPlain _ t
    | number bits => exact unpacksNumber _ bits
    | boolean value => exact unpacksBoolean _ value
    | string content => exact unpacksString _ content encodable
    | link value => exact unpacksLink _ value
    | hash elements =>
      rw [amfGetPackSize] at inner
      have stop := inner .end trivial rfl (by simp only [AV.end, amfGetPackSize]; omega)
      refine unpacksHash _ stop elements encodable fun e member => ?_
      have size := elemPackSize member
      exact inner e.value (elemEncodable encodable member) (elemBlocks blocks member) (by omega)
    | assocArray elements =>
      rw [amfGetPackSize] at inner int
      have count := elemsCount elements
      obtain ⟨block, blocks⟩ := Bool.and_eq_true_iff.mp blocks
      refine unpacksAssocArray _ elements encodable (fun e member => ?_) (by omega) (of_decide_eq_true block)
      have size := elemPackSize member
      exact inner e.value (elemEncodable encodable member) (elemBlocks blocks member) (by omega)
    | array values =>
      rw [amfGetPackSize] at inner int
      have count := valuesCount values
      obtain ⟨block, blocks⟩ := Bool.and_eq_true_iff.mp blocks
      refine unpacksArray _ values (fun v member => ?_) (by omega) (of_decide_eq_true block)
      have size := valuePackSize member
      exact inner v (valueEncodable encodable member) (valueBlocks blocks member) (by omega)

theorem amfUnpackPacked {alloc : Alloc} {v : AV} (encodable : Encodable v) (blocks : blocksFit alloc v = true)
    (int : (amfPack v).length < 2147483648) : Unpacks alloc amfUnpack v := by
  intro room ap rest fits ready h
  have sizes := congrArg List.length h
  simp only [AP.ahead, List.length_drop, List.length_append, packLength] at sizes
  rw [packLength] at int
  exact amfUnpackDepthPacked _ v encodable blocks (by omega) int room ap rest fits ready h

theorem readyStart {ppool : Serving} {alloc : Alloc} (steady : ServesAs ppool alloc) (data : Bytes) :
    Ready alloc (amfApAlloc ppool data data.length) :=
  ⟨steady, fun _ none => absurd none List.not_mem_nil, rfl⟩

-- The value is back and the cursor in front of what follows it.
def Returned (ppool : Serving) (v : AV) (rest : Bytes) (r : Res (AV × Int × AP)) : Prop :=
  ∃ asked, r = .ok (v, (amfPack v).length,
    ⟨ppool, asked, amfPack v ++ rest, (amfPack v ++ rest).length, (amfPack v).length⟩)

theorem unpackedStores {ppool : Serving} {alloc : Alloc} (steady : ServesAs ppool alloc) {v : AV} (rest : Bytes)
    (encodable : Encodable v) (blocks : blocksFit alloc v = true) (int : (amfPack v).length < 2147483648) :
    Stores alloc (hashesFit v) (fun asked => (v, ((amfPack v).length : Int),
        (⟨ppool, asked, amfPack v ++ rest, (amfPack v ++ rest).length, (amfPack v).length⟩ : AP)))
      (amfUnpack avSize (amfApAlloc ppool (amfPack v ++ rest) (amfPack v ++ rest).length)) := by
  have unpacks := amfUnpackPacked encodable blocks int avSize _ rest (Nat.le_refl _) (readyStart steady _) rfl
  simp only [AP.went, amfApAlloc, Nat.zero_add] at unpacks
  exact unpacks

theorem unfitHangs {ppool : Serving} {alloc : Alloc} (steady : ServesAs ppool alloc) {v : AV} (rest : Bytes)
    (encodable : Encodable v) (blocks : blocksFit alloc v = true) (int : (amfPack v).length < 2147483648)
    (unfit : hashesFit v = false) :
    amfUnpack avSize (amfApAlloc ppool (amfPack v ++ rest) (amfPack v ++ rest).length) = .error .hang := by
  have unpacks := unpackedStores steady rest encodable blocks int
  rw [unfit] at unpacks
  exact unpacks

theorem unpackedAgain {ppool : Serving} {alloc : Alloc} (steady : ServesAs ppool alloc) (v : AV) (rest : Bytes)
    (encodable : Encodable v) (int : (amfPack v).length < 2147483648) :
    Returned ppool v rest (amfUnpack avSize (amfApAlloc ppool (amfPack v ++ rest) (amfPack v ++ rest).length)) ↔
      hashesFit v = true ∧ blocksFit alloc v = true := by
  constructor
  · rintro ⟨asked, returned⟩
    have built := amfUnpackBuilds steady returned
    exact ⟨built.hashes, built.blocks⟩
  · rintro ⟨hashes, blocks⟩
    have unpacks := unpackedStores steady rest encodable blocks int
    rw [hashes] at unpacks
    obtain ⟨asked, _, result⟩ := storesGood unpacks
    exact ⟨asked, result⟩

theorem valueRoundTrip (v : AV) (rest : Bytes) (encodable : Encodable v)
    (int : (amfPack v).length < 2147483648) :
    Returned requestedPool v rest
        (amfUnpack avSize (amfApAlloc requestedPool (amfPack v ++ rest) (amfPack v ++ rest).length)) ↔
      hashesFit v = true ∧ blocksFit requested v = true :=
  unpackedAgain requestedSteady v rest encodable int

def nestedValue : AV :=
  .array [.hash [⟨[97], .assocArray [⟨[], .string [104, 105]⟩]⟩], .number 0, .end]

theorem nestedValueRoundTrip :
    Returned requestedPool nestedValue [9]
      (amfUnpack avSize (amfApAlloc requestedPool (amfPack nestedValue ++ [9]) (amfPack nestedValue ++ [9]).length)) :=
  (valueRoundTrip nestedValue [9]
    (by simp [nestedValue, Encodable, ElemsEncodable, ValuesEncodable, AV.end, AV.type]; decide)
    (by decide)).mpr (by decide)

def wideHash (n : Nat) : AV := .hash (List.replicate n ⟨[], .nil⟩)

theorem wideHashElems (n : Nat) : ElemsEncodable (List.replicate n ⟨[], .nil⟩) ∧
    elemsPackSize (List.replicate n ⟨[], .nil⟩) = 3 * n := by
  induction n with
  | zero => exact ⟨trivial, rfl⟩
  | succ n ih =>
    rw [List.replicate_succ, ElemsEncodable, elemsPackSize, ih.2]
    refine ⟨⟨by decide, by decide, trivial, ih.1⟩, ?_⟩
    simp only [List.length_nil, AV.nil, amfGetPackSize]
    omega

theorem wideHashBlocks (alloc : Alloc) (n : Nat) : blocksFit alloc (wideHash n) = true := by
  rw [wideHash, blocksFit]
  induction n with
  | zero => rfl
  | succ n ih =>
    rw [List.replicate_succ, elemsBlocksFit, ih]
    rfl

-- 26843546 elements of 40 bytes pass 2^30, while the packing has about 80 million bytes.
theorem wideHashHangs : Encodable (wideHash 26843546) ∧
    (amfPack (wideHash 26843546)).length < 2147483648 ∧
    amfUnpack avSize (amfApAlloc requestedPool (amfPack (wideHash 26843546) ++ [])
      (amfPack (wideHash 26843546) ++ []).length) = .error .hang := by
  have elems := wideHashElems 26843546
  have encodable : Encodable (wideHash 26843546) := elems.1
  have int : (amfPack (wideHash 26843546)).length < 2147483648 := by
    rw [packLength, wideHash, amfGetPackSize, elems.2]
    decide
  have wide : hashesFit (wideHash 26843546) = false := by
    rw [wideHash, hashesFit, List.length_replicate]
    rfl
  exact ⟨encodable, int, unfitHangs requestedSteady [] encodable (wideHashBlocks requested 26843546) int wide⟩

end Rushkit.Amf
