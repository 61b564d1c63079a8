import Rushkit.AmfSimulation

/-! The elements of a hash: each one is decoded into the frame of the call and then copied behind
those before it, into a larger block where the one in use is full. -/
namespace Rushkit.Amf.Raw
open ByteMemory

theorem grownHolds {fuel : Nat} {need newCap cap : Int} (grown : growCapacity fuel need newCap = some cap) :
    need ≤ cap := by
  induction fuel generalizing newCap with
  | zero => cases grown
  | succ fuel ih =>
    rw [growCapacity] at grown
    split at grown
    · exact ih grown
    · cases grown
      omega

theorem capacityCases {capacity need cap : Int} (chosen : wbCapacity capacity need = .ok cap) :
    need ≤ capacity ∧ cap = capacity ∨ capacity < need ∧ need ≤ cap := by
  rw [wbCapacity] at chosen
  split at chosen
  · rename_i more
    cases found : growCapacity growFuel need (int32 (capacity * 2)) with
    | none =>
      rw [found] at chosen
      cases chosen
    | some grown =>
      rw [found] at chosen
      cases chosen
      exact .inr ⟨more, grownHolds found⟩
  · cases chosen
    exact .inl ⟨by omega, rfl⟩

/- The buffer in memory. `F` has its block and `G`, where the elements point to. -/
structure Backs (process : Process) (m : Machine) (F G : Set Nat) (pb : PoolBuffer (AkTableElem AV)) (b : Buffer) :
    Prop where
  capacity : b.capacity = pb.buffer.capacity
  length : b.length = pb.buffer.length
  size : b.length = tableElemSize * pb.buffer.content.length
  address : b.buf < 2 ^ 64
  has : process.Has m.ppool.trunks b.buf pb.block
  bound : pb.block < 2147481600
  fits : b.length ≤ pb.block
  block : extent b.buf pb.block ⊆ F
  rest : G ⊆ F
  apart : Disjoint G (extent b.buf pb.block)
  content : HoldsElems m.bytes (extent b.buf b.length ∪ G) b.buf pb.buffer.content

theorem elemsPlaced {mem mem' : Memory} {S E : Set Nat} {p q : Nat} {content : List (AkTableElem AV)} {key : Bytes}
    {value : AV} (before : HoldsElems mem' S q content) (string : HoldsString mem E p key)
    (holds : Holds mem E (p + akSize) value) (sub : E ⊆ S) (kept : Set.EqOn mem' mem E)
    (copied : ∀ i < tableElemSize, mem' (q + tableElemSize * content.length + i) = mem (p + i))
    (inside : extent (q + tableElemSize * content.length) tableElemSize ⊆ S) :
    HoldsElems mem' S q (content ++ [⟨key, value⟩]) := by
  have narrow := widthBound value
  refine elemsAppend.mpr ⟨before, (extentFront ?_).trans inside, stringMoved sub kept (fun i less => copied i ?_) string,
    holdsMoved sub kept value (fun i less => ?_) holds, trivial⟩
  · unfold avSize at narrow
    unfold akSize tableElemSize
    omega
  · unfold akSize at less
    unfold tableElemSize
    omega
  · rw [Nat.add_assoc, Nat.add_assoc p]
    refine copied (akSize + i) ?_
    unfold avSize at narrow
    unfold akSize tableElemSize
    omega

section Writing
variable {process : Process} {frame : Nat} {m m' : Machine} {ap : AP} {S W F G E : Set Nat}
  {pb : PoolBuffer (AkTableElem AV)} {b : Buffer}

theorem appendBacks {p : Nat} {key : Bytes} {value : AV} (reached : Reached process frame m S W m' ap F)
    (backs : Backs process m' F G pb b) (used : E ⊆ F)
    (apart : Disjoint E (extent b.buf pb.block)) (string : HoldsString m'.bytes E p key)
    (holds : Holds m'.bytes E (p + akSize) value) (room : b.length + tableElemSize ≤ pb.block) :
    ∃ m'', process.store (b.buf + b.length) (read m'.bytes p tableElemSize) m' = .ok m'' ∧
      Reached process frame m S W m'' ap F ∧
      Backs process m'' F (G ∪ E)
        ⟨⟨pb.buffer.content ++ [⟨key, value⟩], b.length + tableElemSize, pb.buffer.capacity⟩, pb.block⟩
        ⟨b.buf, pb.buffer.capacity, b.length + tableElemSize⟩ := by
  have length : (read m'.bytes p tableElemSize).length = tableElemSize := readLength
  have inside : extent (b.buf + b.length) tableElemSize ⊆ extent b.buf pb.block := extentPart room
  have fresh := (reachedFresh reached).mono_right (inside.trans backs.block)
  obtain ⟨m'', stored, copied, pool, kept, after⟩ := storedBytes reached (read m'.bytes p tableElemSize)
    (p := b.buf + b.length) (length.symm ▸ Process.hasPart backs.has room)
    (length.symm ▸ unwritten fresh)
  rw [length] at kept copied
  have apart' : extent b.buf b.length ∪ G ⊆ (extent (b.buf + b.length) tableElemSize)ᶜ :=
    Set.union_subset (extentsApart (.inl (Nat.le_refl _))).subset_compl_right
      (backs.apart.mono_right inside).subset_compl_right
  refine ⟨m'', stored, after, rfl, rfl, ?_, backs.address, pool ▸ backs.has, backs.bound, room, backs.block,
    Set.union_subset backs.rest used, Set.disjoint_union_left.mpr ⟨backs.apart, apart⟩, ?_⟩
  · rw [List.length_append, List.length_singleton, Nat.mul_add, ← backs.size, Nat.mul_one]
  · refine elemsPlaced (elemsKept ?_ (kept.mono apart') _ backs.content) string holds ?_
      (kept.mono (apart.mono_right inside).subset_compl_right) (fun i less => ?_) ?_
    · exact Set.union_subset_union (extentFront (Nat.le_add_right _ _)) Set.subset_union_left
    · exact Set.subset_union_right.trans Set.subset_union_right
    · rw [← backs.size]
      exact readAt copied less
    · rw [← backs.size]
      exact (extentPart (Nat.le_refl _)).trans Set.subset_union_left

theorem requestBound (world : World process m ap S) (size : Nat) : (ap.request size).1 < 2147481600 := by
  rw [AP.request, world.pool]
  exact rtPoolBound _ _

theorem writeSim {p : Nat} {key : Bytes} {value : AV} (reached : Reached process frame m S W m' ap F)
    (backs : Backs process m' F G pb b) (above : process.stack ≤ p) (used : E ⊆ F)
    (apart : Disjoint E (extent b.buf pb.block)) (string : HoldsString m'.bytes E p key)
    (holds : Holds m'.bytes E (p + akSize) value) :
    Simulates (fun r r' => r.1.buffer.content = pb.buffer.content ++ [⟨key, value⟩] ∧
        ∃ F' G', Reached process frame m S W r'.2 r.2 F' ∧ Backs process r'.2 F' G' r.1 r'.1)
      (rtmpWbWriteIn pb ⟨key, value⟩ tableElemSize ap)
      (process.rtmpWbWrite b (read m'.bytes p tableElemSize) m') := by
  rw [rtmpWbWriteIn, Rushkit.rtmpWbWrite, Process.rtmpWbWrite, backs.capacity, ← backs.length, readLength]
  cases chosen : wbCapacity pb.buffer.capacity (int32 (b.length + tableElemSize)) with
  | error e => exact .fault e
  | ok cap =>
    rw [Fallible.okBind, lift, Fallible.okBind]
    by_cases enough : (b.length : Int) + tableElemSize ≤ cap
    · rw [if_pos enough, Fallible.okBind]
      dsimp only
      rcases capacityCases chosen with ⟨less, same⟩ | ⟨more, room⟩
      · rw [if_pos same, if_neg (by omega), Fallible.okBind]
        refine simulatesStore fun fits => ?_
        obtain ⟨m'', stored, after, backs'⟩ := appendBacks reached backs used apart string holds fits
        dsimp only
        rw [stored, Fallible.okBind, same]
        exact .ok ⟨rfl, F, _, after, backs'⟩
      · rw [if_neg (by omega), if_pos more]
        have bound := requestBound reached.world (unsignedInt cap)
        rcases requestSim reached (unsignedInt cap) with none | ⟨q, m₁, some, bytes, address, own, apart₁, fresh, first⟩
        · rw [none]
          exact .exhausted _
        rw [some]
        generalize ap.request (unsignedInt cap) = block at bound own apart₁ fresh first ⊢
        obtain ⟨block, ap₁⟩ := block
        dsimp only at bound own apart₁ fresh first ⊢
        refine simulatesStore fun fits => ?_
        have shorter : b.length ≤ block := Nat.le_trans (Nat.le_add_right _ _) fits
        have length : (read m₁.bytes b.buf b.length).length = b.length := readLength
        obtain ⟨m₂, store₂, copied, pool₂, kept, second⟩ := storedBytes first (p := q) (read m₁.bytes b.buf b.length)
          (length.symm ▸ Process.hasFront own shorter)
          (length.symm ▸ unwritten (fresh.mono_right (extentFront shorter)))
        rw [length, bytes] at copied kept
        have kept₂ : Set.EqOn m₂.bytes m'.bytes F :=
          kept.mono (apart₁.mono_right (extentFront shorter)).subset_compl_right
        have backs₂ : Backs process m₂ (F ∪ extent q block) F ⟨⟨pb.buffer.content, b.length, cap⟩, block⟩
            ⟨q, cap, b.length⟩ := by
          have old : extent b.buf b.length ∪ G ⊆ F :=
            Set.union_subset ((extentFront backs.fits).trans backs.block) backs.rest
          refine ⟨rfl, rfl, backs.size, address, pool₂ ▸ own, bound, shorter, Set.subset_union_right,
            Set.subset_union_left, apart₁, ?_⟩
          refine elemsMoved Set.subset_union_right kept₂ (fun i less => readAt copied ?_) ?_ (elemsMore old backs.content)
          · rw [backs.size]
            exact less
          · rw [← backs.size]
            exact Set.subset_union_left
        have frame₂ : Set.EqOn m₂.bytes m'.bytes (extent p tableElemSize) := by
          refine kept.mono (Set.disjoint_left.mpr fun a here written => ?_).subset_compl_right
          have below := Process.reachesBelow first.world.stands.placed
            (first.world.stands.inside (.inr (.inr (extentFront shorter written))))
          rw [extentMem] at here
          omega
        have string₂ : HoldsString m₂.bytes E p key := stringKept
          (Set.eqOn_union.mpr ⟨kept₂.mono used, frame₂.mono (extentFront (by decide))⟩) string
        have part : extent (p + akSize) (width value) ⊆ extent p tableElemSize :=
          extentPart (Nat.add_le_add_left (widthBound value) akSize)
        have holds₂ : Holds m₂.bytes E (p + akSize) value :=
          valueKept (Set.eqOn_union.mpr ⟨kept₂.mono used, frame₂.mono part⟩) holds
        obtain ⟨m₃, store₃, third, backs₃⟩ := appendBacks second backs₂ (used.trans Set.subset_union_left)
          (apart₁.mono_left used) string₂ holds₂ fits
        rw [readKept frame₂ Set.Subset.rfl] at store₃
        rw [Fallible.okBind]
        dsimp only at store₃ ⊢
        rw [store₂, Fallible.okBind, Fallible.okBind]
        dsimp only
        rw [store₃, Fallible.okBind]
        exact .ok ⟨rfl, _, _, third, backs₃⟩
    · rw [if_neg enough, Fallible.errorBind]
      exact .spilled _

theorem backsLater (E : Set Nat) (backs : Backs process m F G pb b) (trunks : m.ppool.trunks <+: m'.ppool.trunks)
    (kept : Set.EqOn m'.bytes m.bytes F) : Backs process m' (F ∪ E) G pb b where
  capacity := backs.capacity
  length := backs.length
  size := backs.size
  address := backs.address
  has := Process.hasMore trunks backs.has
  bound := backs.bound
  fits := backs.fits
  block := backs.block.trans Set.subset_union_left
  rest := backs.rest.trans Set.subset_union_left
  apart := backs.apart
  content := elemsKept Set.Subset.rfl
    (kept.mono (Set.union_subset ((extentFront backs.fits).trans backs.block) backs.rest)) _ backs.content

end Writing

section Hashes
variable {process : Process} {frame : Nat} {decoder : Nat → Decoder AV} {run : Nat → Nat → Run Int}

theorem belowFrame {ap : AP} {m : Machine} {S : Set Nat} (world : World process m ap S)
    (above : process.stack ≤ frame) (n : Nat) : Disjoint (known process frame S) (extent frame n) := by
  refine Set.disjoint_left.mpr fun a before written => ?_
  rw [extentMem] at written
  rcases before with used | waits
  · have below := Process.reachesBelow world.stands.placed (world.stands.inside used)
    omega
  · have high := waits.2
    omega

theorem hashLoopSim (implements : Implements process decoder run) (above : process.stack ≤ frame) (fuel : Nat)
    {m m' : Machine} {ap : AP} {S W F G : Set Nat} {pb : PoolBuffer (AkTableElem AV)} {b : Buffer} (rsum : Int)
    (reached : Reached process frame m S W m' ap F) (backs : Backs process m' F G pb b) :
    Simulates (fun r r' => r'.1.2.1 = r.1.buffer.content.length ∧ r'.1.2.2 = r.2.1 ∧
        ∃ F' G', Reached process frame m S W r'.2 r.2.2 F' ∧ Backs process r'.2 F' G' r.1 r'.1.1)
      (Amf.unpackHashLoop decoder fuel pb rsum ap)
      (process.unpackHashLoop run frame fuel b pb.buffer.content.length rsum m') := by
  induction fuel generalizing m' ap F G pb b rsum with
  | zero => exact .fault .hang
  | succ fuel ih =>
    rw [Amf.unpackHashLoop, Process.unpackHashLoop]
    have here {T : Set Nat} : extent frame tableElemSize ⊆ known process (frame + tableElemSize) T := fun a part =>
      .inr ⟨Nat.le_trans above part.1, part.2⟩
    have keyPart : extent frame akSize ⊆ extent frame tableElemSize := extentFront (by decide)
    have valuePart : extent (frame + akSize) avSize ⊆ extent frame tableElemSize := extentPart (by decide)
    refine simulatesBind (zstrSim reached.world (.inr (.inl above)) (keyPart.trans here)) ?_
    rintro ⟨key, _, ap₁⟩ ⟨k, m₁⟩ ⟨rfl, F₁, first, _, string⟩
    dsimp only at first string ⊢
    refine simulatesBind (implements (Nat.le_trans above (Nat.le_add_right _ _)) first.world
      (.inr (.inl (Nat.le_trans above (Nat.le_add_right _ _)))) (valuePart.trans here)) ?_
    rintro ⟨value, _, ap₂⟩ ⟨n, m₂⟩ ⟨rfl, F₂, second, _, holds⟩
    dsimp only at second holds ⊢
    have both := reachedTrans (reachedWiden first keyPart) second (Set.inter_subset_right.trans valuePart)
    have outside := belowFrame reached.world above tableElemSize
    have old : F ⊆ known process frame (S ∪ F) := knownFresh
    have apart : Disjoint F (extent frame tableElemSize) := outside.mono_left old
    have all := reachedTrans reached (reachedLower both (Nat.le_add_right _ _))
      (unwritten (outside.mono_left knownMore))
    have later := backsLater (F₁ ∪ F₂) backs both.trunks (reachedKeeps both knownFresh apart)
    have string₂ : HoldsString m₂.bytes F₁ frame key := by
      refine stringKept (reachedKeeps second (Set.union_subset knownFresh (keyPart.trans here))
        (Set.disjoint_union_left.mpr ⟨?_, extentsApart (.inl (Nat.le_refl _))⟩)) string
      exact ((reachedFresh first).mono_left (valuePart.trans here)).symm
    have type := holdsType value holds
    rw [type]
    by_cases ends : value.type = amfEnd
    · rw [if_pos ends, if_pos (by rw [ends])]
      exact .ok ⟨rfl, rfl, _, _, all, later⟩
    rw [if_neg ends, if_neg fun same => ends (UInt8.toNat_inj.mp (Int.ofNat_inj.mp same))]
    have fresh : Disjoint (F₁ ∪ F₂) (extent b.buf pb.block) :=
      (both.apart.mono_left (backs.block.trans Set.subset_union_right)).symm
    refine simulatesBind (writeSim all later above Set.subset_union_right fresh
      (stringMore Set.subset_union_left string₂) (valueMore Set.subset_union_right holds)) ?_
    rintro ⟨pb', ap₃⟩ ⟨b', m₃⟩ ⟨content, F', G', third, backs'⟩
    dsimp only at content third backs' ⊢
    have rest := ih (rsum + k + n) third backs'
    rw [content, List.length_append, List.length_singleton] at rest
    exact rest

theorem hashSim (implements : Implements process decoder run) (above : process.stack ≤ frame) {m : Machine} {ap : AP}
    {S : Set Nat} {ptable room : Nat} (world : World process m ap S) (has : process.Has m.ppool.trunks ptable room)
    (used : extent ptable room ⊆ known process frame S) :
    Simulates (Yields process frame m S (extent ptable room) (TableAt room ptable))
      (Amf.unpackHash decoder room ap) (process.unpackHash run frame ptable m) := by
  rw [Amf.unpackHash, rtmpWbInitIn, Process.unpackHash, Process.rtmpWbInit]
  have start := reachedHere frame (extent ptable room) world rfl rfl
  have bound := requestBound world 512
  rcases requestSim start 512 with none | ⟨q, m₁, some, bytes, address, own, _, fresh, first⟩
  · rw [none]
    exact .exhausted _
  rw [some]
  rw [Set.empty_union] at first
  generalize ap.request 512 = block at bound own fresh first ⊢
  obtain ⟨block, ap₁⟩ := block
  dsimp only at bound own fresh first ⊢
  have backs : Backs process m₁ (extent q block) ∅ ⟨rtmpWbInit 512, block⟩ ⟨q, 512, 0⟩ :=
    ⟨rfl, rfl, rfl, address, own, bound, Nat.zero_le _, Set.Subset.rfl, Set.empty_subset _, Set.empty_disjoint _,
      trivial⟩
  rw [Fallible.okBind, Fallible.okBind, first.world.mem]
  refine simulatesBind (hashLoopSim implements above _ 0 first backs) ?_
  rintro ⟨pb, rsum, ap₂⟩ ⟨⟨b, count, total⟩, m₂⟩ ⟨counted, sum, F, G, second, backs⟩
  dsimp only at counted sum second backs ⊢
  refine simulatesStore fun fits => ?_
  have front : extent ptable 4 ⊆ extent ptable room := extentFront (Nat.le_trans (by decide) fits)
  have back : extent (ptable + 8) 8 ⊆ extent ptable room := extentPart fits
  have outside : Disjoint (extent ptable room) F := (reachedFresh second).mono_left used
  obtain ⟨m₃, store₃, pointer, pool₃, kept₃, third⟩ := storedPointer second backs.address
    (Process.hasPart (Process.hasMore second.trunks has) fits) (Set.inter_subset_right.trans back)
  have size := backs.size
  have room := backs.fits
  have small := backs.bound
  have few : count < 2147483648 := by
    rw [tableElemSize] at size
    omega
  obtain ⟨m₄, store₄, stored, _, kept₄, fourth⟩ := storedInt third (p := ptable) (x := count) (by omega) (by omega)
    (Process.hasFront (Process.hasMore third.trunks has) (Nat.le_trans (by decide) fits))
    (Set.inter_subset_right.trans front)
  rw [store₃, Fallible.okBind, store₄, Fallible.okBind]
  have pointer₄ : pointerAt m₄.bytes (ptable + 8) = b.buf :=
    (pointerKept (kept₄.mono (extentsApart (.inr (by omega))).subset_compl_right)).trans pointer
  have kept : Set.EqOn m₄.bytes m₂.bytes F :=
    (kept₄.mono (outside.mono_left front).subset_compl_left).trans
      (kept₃.mono (outside.mono_left back).subset_compl_left)
  have inside : extent b.buf b.length ∪ G ⊆ F := Set.union_subset ((extentFront room).trans backs.block) backs.rest
  refine .ok ⟨sum, F, fourth, fits, stored.trans (congrArg Nat.cast counted), ?_⟩
  dsimp only
  rw [pointer₄]
  exact elemsMore inside (elemsKept Set.Subset.rfl (kept.mono inside) _ backs.content)

end Hashes
end Rushkit.Amf.Raw
