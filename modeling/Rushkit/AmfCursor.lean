import Rushkit.Invoke

/-! Values taken from a cursor one after the other: single ones, and lists that a terminator ends. -/
namespace Rushkit.Amf

inductive Item where
  | value (v : AV)
  | list (values : List AV)

def Item.bytes : Item → Bytes
  | .value v => amfPack v
  | .list values => packValues values ++ packEnd

def Item.encodable : Item → Prop
  | .value v => Encodable v
  | .list values => ValuesEncodable values ∧ ∀ v ∈ values, v.type ≠ amfEnd

def Item.fits : Item → Bool
  | .value v => hashesFit v
  | .list values => valuesFit values && decide (values.length * avSize ≤ 1073741824)

def Item.blocks (alloc : Alloc) : Item → Bool
  | .value v => blocksFit alloc v
  | .list values => valuesBlocksFit alloc values

def packItems (items : List Item) : Bytes := items.flatMap Item.bytes

-- The call that an item of this kind asks for.
def readItem : Item → AP → Res (Item × AP)
  | .value _, ap => do
    let (v, ap) ← amfApReadNext ap
    .ok (.value v, ap)
  | .list _, ap => do
    let (values, ap) ← amfApReadArray ap
    .ok (.list values, ap)

-- Calls for these kinds, each of them only when there is something left.
def readItems : List Item → AP → Res (List Item × AP)
  | [], ap => .ok ([], ap)
  | item :: items, ap =>
    if amfApIsEnd ap then .ok ([], ap)
    else do
      let (item, ap) ← readItem item ap
      let (items, ap) ← readItems items ap
      .ok (item :: items, ap)

section Serving
variable {alloc : Alloc}

theorem readArrayLoopPacked (values : List AV) (encodable : ValuesEncodable values)
    (goOn : ∀ v ∈ values, v.type ≠ amfEnd) (blocks : valuesBlocksFit alloc values = true)
    (int : (packValues values).length < 2147483648) (fuel : Nat) (enough : values.length < fuel)
    (buffer : PoolBuffer AV) {stored : Nat} (roomy : Roomy buffer stored avSize) (ap : AP) (ready : Ready alloc ap)
    {rest : Bytes} (h : ap.ahead = packValues values ++ (packEnd ++ rest)) :
    Stores alloc (valuesFit values && decide ((stored + values.length) * avSize ≤ 1073741824))
      (fun asked => (buffer.buffer.content ++ values, ap.went (packValues values ++ packEnd).length asked))
      ((readArrayLoop fuel buffer ap).map fun r => (r.1.buffer.content, r.2)) := by
  induction values generalizing fuel buffer stored ap with
  | nil =>
    cases fuel with
    | zero => contradiction
    | succ fuel =>
      rw [packValues, List.nil_append, ← packEndTag] at h
      have ended := amfUnpackPacked (v := .end) trivial rfl (by decide) avSize ap rest (Nat.le_refl _) ready h
      obtain ⟨asked, served, read⟩ := storesGood ended
      rw [readArrayLoop, read, List.append_nil, List.length_nil, Nat.add_zero, decide_eq_true (roomyBound roomy)]
      exact storesOk served rfl
  | cons v vs ih =>
    cases fuel with
    | zero => contradiction
    | succ fuel =>
      obtain ⟨mine, others⟩ := List.forall_mem_cons.mp goOn
      obtain ⟨block, blocks⟩ := Bool.and_eq_true_iff.mp blocks
      rw [packValues, List.length_append] at int
      rw [packValues, List.append_assoc] at h
      have head := amfUnpackPacked encodable.1 block (by omega) avSize ap _ (Nat.le_refl _) ready h
      rw [readArrayLoop, Fallible.bindMap, valuesFit, Bool.and_assoc]
      refine storesBind head fun asked served => ?_
      have ready := readyWent ready served (amfPack v).length
      dsimp only
      rw [if_neg mine, Fallible.bindMap, List.length_cons]
      refine storesOne ready roomy v (by decide) fun buffer' asked content roomy' served => ?_
      have tail := ih encodable.2 others blocks (by omega) fuel (Nat.lt_of_succ_lt_succ enough) buffer' roomy'
        _ (readyWent ready served 0) (AP.aheadPast h asked)
      rw [content] at tail
      simp only [packValues, List.append_assoc, List.singleton_append, List.length_append, AP.wentWent,
        Nat.add_zero] at tail ⊢
      exact tail

theorem readItemPacked {item : Item} (encodable : item.encodable) (blocks : item.blocks alloc = true)
    (int : item.bytes.length < 2147483648) {ap : AP} (ready : Ready alloc ap) {rest : Bytes}
    (h : ap.ahead = item.bytes ++ rest) :
    Stores alloc item.fits (fun asked => (item, ap.went item.bytes.length asked)) (readItem item ap) := by
  cases item with
  | value v =>
    have one : avSize ≤ alloc avSize := ready.steady.small (by decide)
    obtain ⟨asks, covered, served⟩ := readyRequest ready one
    have unpacks := amfUnpackPacked encodable blocks int avSize (ap.went 0 (avSize :: ap.asked)) rest
      (Nat.le_refl _) (readyWent ready served 0) (AP.aheadPast (s := []) h _)
    rw [readItem, amfApReadNext, asks]
    dsimp only
    rw [storeRoom covered, Fallible.okBind]
    refine storesThen (storesThen unpacks fun asked => rfl) fun asked => ?_
    rw [AP.wentWent, Nat.zero_add]
    rfl
  | list values =>
    obtain ⟨encodable, goOn⟩ := encodable
    have count := valuesCount values
    have sizes := congrArg List.length h
    have wide : avSize ≤ 256 := by decide
    rw [Item.bytes, List.append_assoc] at h
    rw [Item.bytes, List.length_append] at int
    rw [AP.ahead, List.length_drop, Item.bytes, List.length_append, List.length_append, packValuesLength] at sizes
    obtain ⟨block, init, roomy, served⟩ := roomyInit (α := AV) ready (j := 8) (by decide) (by decide) wide
    have loop := readArrayLoopPacked values encodable goOn blocks (by omega) (ap.mem.length + 2) (by omega)
      ⟨rtmpWbInit 256, block⟩ roomy (ap.went 0 (256 :: ap.asked)) (readyWent ready served 0)
      (AP.aheadPast (s := []) h _)
    have start : amfApReadArray ap = (readArrayLoop (ap.mem.length + 2) ⟨rtmpWbInit 256, block⟩
        (ap.went 0 (256 :: ap.asked))).map fun r => (r.1.buffer.content, r.2) := by
      rw [amfApReadArray, init]
      dsimp only
      rw [AP.wentMem]
      cases readArrayLoop (ap.mem.length + 2) ⟨rtmpWbInit 256, block⟩ (ap.went 0 (256 :: ap.asked)) <;> rfl
    rw [Nat.zero_add, ← start] at loop
    rw [readItem]
    refine storesThen loop fun asked => ?_
    rw [AP.wentWent, Nat.zero_add]
    rfl

theorem itemSome (item : Item) : item.bytes ≠ [] := by
  cases item with
  | value v =>
    have some := packSizePositive v
    rw [← packLength] at some
    exact List.ne_nil_of_length_pos some
  | list values => exact List.append_ne_nil_of_right_ne_nil _ (List.cons_ne_nil _ _)

theorem readItemsPacked (items : List Item)
    (good : ∀ item ∈ items, item.encodable ∧ item.fits = true ∧ item.blocks alloc = true)
    (int : (packItems items).length < 2147483648) (ap : AP) (ready : Ready alloc ap)
    {rest : Bytes} (h : ap.ahead = packItems items ++ rest) :
    ∃ asked, readItems items ap = .ok (items, ap.went (packItems items).length asked) := by
  induction items generalizing ap with
  | nil => exact ⟨ap.asked, rfl⟩
  | cons item items ih =>
    obtain ⟨⟨encodable, fits, blocks⟩, others⟩ := List.forall_mem_cons.mp good
    rw [packItems, List.flatMap_cons, List.length_append] at int
    rw [packItems, List.flatMap_cons, List.append_assoc] at h
    have more : ¬ amfApIsEnd ap = true := by
      rw [endAhead ready.whole, h]
      exact List.append_ne_nil_of_left_ne_nil (itemSome item) _
    have stores := readItemPacked encodable blocks (by omega) ready h
    rw [fits] at stores
    obtain ⟨asked, served, head⟩ := storesGood stores
    obtain ⟨asked, tail⟩ := ih others (by rw [packItems]; omega) _ (readyWent ready served _)
      (AP.aheadPast h asked)
    refine ⟨asked, ?_⟩
    rw [readItems, if_neg more, head, Fallible.okBind]
    dsimp only
    rw [tail, AP.wentWent, ← List.length_append, packItems, packItems, List.flatMap_cons]
    rfl

theorem readArrayLoopBuilds (fuel : Nat) (buffer : PoolBuffer AV) {ap ap' : AP} (steady : ServesAs ap.ppool alloc)
    (gathered : Gathered alloc buffer) (goOn : ∀ v ∈ buffer.buffer.content, v.type ≠ amfEnd)
    {buffer' : PoolBuffer AV} (h : readArrayLoop fuel buffer ap = .ok (buffer', ap')) :
    Gathered alloc buffer' ∧ (∀ v ∈ buffer'.buffer.content, v.type ≠ amfEnd) ∧ ap'.ppool = ap.ppool := by
  induction fuel generalizing buffer ap with
  | zero => contradiction
  | succ fuel ih =>
    obtain ⟨⟨v, n, next⟩, head, h⟩ := Fallible.bindOk.mp h
    obtain ⟨k, mid, _, _, moved⟩ := amfUnpackMoves _ _ _ _ _ head
    dsimp only at h
    split at h
    · cases h
      exact ⟨gathered, goOn, by rw [moved, AP.wentPpool]⟩
    · rename_i stays
      obtain ⟨⟨grown, after⟩, write, tail⟩ := Fallible.bindOk.mp h
      obtain ⟨steady, more⟩ := gatheredMore steady gathered head write
      obtain ⟨written, asked, rfl⟩ := writeRead write
      obtain ⟨_, content, _⟩ := wbWritePower gathered.held.power written
      have goOn : ∀ v ∈ grown.buffer.content, v.type ≠ amfEnd := by
        rw [content]
        exact List.forall_mem_append.mpr ⟨goOn, List.forall_mem_singleton.mpr stays⟩
      obtain ⟨last, ends, pool⟩ := ih grown steady more goOn tail
      refine ⟨last, ends, ?_⟩
      rw [pool, moved, AP.wentPpool, AP.wentPpool]

theorem readItemBuilds {kind item : Item} {ap ap' : AP} (steady : ServesAs ap.ppool alloc)
    (h : readItem kind ap = .ok (item, ap')) :
    (item.encodable ∧ item.fits = true ∧ item.blocks alloc = true) ∧ ap'.ppool = ap.ppool := by
  cases kind with
  | value =>
    obtain ⟨⟨v, next⟩, read, result⟩ := Fallible.bindOk.mp h
    cases result
    obtain ⟨_, _, read⟩ := Fallible.bindOk.mp read
    obtain ⟨⟨v, n, next⟩, unpacked, result⟩ := Fallible.bindOk.mp read
    cases result
    have steady : ServesAs (ap.went 0 (avSize :: ap.asked)).ppool alloc := steady
    have built := amfUnpackBuilds steady unpacked
    obtain ⟨k, mid, _, _, rfl⟩ := amfUnpackMoves _ _ _ _ _ unpacked
    exact ⟨⟨built.encodable, built.hashes, built.blocks⟩, rfl⟩
  | list =>
    obtain ⟨⟨values, next⟩, read, result⟩ := Fallible.bindOk.mp h
    cases result
    obtain ⟨⟨buffer, next⟩, loop, result⟩ := Fallible.bindOk.mp read
    cases result
    have steady : ServesAs (ap.went 0 (256 :: ap.asked)).ppool alloc := steady
    obtain ⟨gathered, goOn, pool⟩ := readArrayLoopBuilds _ _ steady
      (gatheredNone (j := 8) (by decide) (by decide)) (fun _ none => absurd none List.not_mem_nil) loop
    obtain ⟨encodable, hashes, blocks⟩ := valuesBuilt gathered.built
    refine ⟨⟨⟨encodable, goOn⟩, ?_, blocks⟩, pool⟩
    rw [Item.fits]
    exact Bool.and_eq_true_iff.mpr ⟨hashes, decide_eq_true (gatheredRoom gathered)⟩

theorem readItemsBuilds (kinds : List Item) {items : List Item} {ap ap' : AP} (steady : ServesAs ap.ppool alloc)
    (h : readItems kinds ap = .ok (items, ap')) :
    ∀ item ∈ items, item.encodable ∧ item.fits = true ∧ item.blocks alloc = true := by
  induction kinds generalizing items ap with
  | nil =>
    cases h
    exact fun _ none => absurd none List.not_mem_nil
  | cons kind kinds ih =>
    rw [readItems] at h
    split at h
    · cases h
      exact fun _ none => absurd none List.not_mem_nil
    · obtain ⟨⟨item, next⟩, first, h⟩ := Fallible.bindOk.mp h
      obtain ⟨⟨others, last⟩, rest, result⟩ := Fallible.bindOk.mp h
      cases result
      obtain ⟨built, pool⟩ := readItemBuilds steady first
      rw [← pool] at steady
      exact List.forall_mem_cons.mpr ⟨built, ih steady rest⟩

end Serving

-- The items come back, and the cursor is at the end.
def ReadBack (items : List Item) : Prop :=
  ∃ ap, readItems items (amfApAlloc rtPool (packItems items) (packItems items).length) = .ok (items, ap) ∧
    amfApIsEnd ap = true

theorem itemsRead {items : List Item} (int : (packItems items).length < 2147483648) :
    ReadBack items ↔ ∀ item ∈ items, item.encodable ∧ item.fits = true ∧ item.blocks rtPoolAlloc = true := by
  constructor
  · rintro ⟨ap, read, _⟩
    exact readItemsBuilds items rtPoolSteady read
  · intro good
    have ready := readyStart rtPoolSteady (packItems items)
    have ahead : (amfApAlloc rtPool (packItems items) (packItems items).length).ahead = packItems items ++ [] :=
      (List.append_nil _).symm
    obtain ⟨asked, read⟩ := readItemsPacked items good int _ ready ahead
    refine ⟨_, read, ?_⟩
    refine (endAhead ?_).mpr (AP.aheadPast ahead asked)
    exact ready.whole

def rowItems : List Item :=
  [.value (.string [97]), .list [.number 0, .array [.end]], .list [], .value .nil]

theorem rowItemsRead : ReadBack rowItems := by
  refine (itemsRead (by decide)).mpr ?_
  simp [rowItems, Item.encodable, Item.fits, Item.blocks, Encodable, ValuesEncodable, hashesFit, valuesFit,
    blocksFit, valuesBlocksFit, AV.nil, AV.end, AV.type, amfNumber, amfArray, amfEnd]
  decide

end Rushkit.Amf
