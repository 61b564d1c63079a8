import Rushkit.AmfGathered

/-! The decoder over memory refines the decoder over values. -/
namespace Rushkit.Amf.Raw
open ByteMemory

section Unions
variable {process : Process} {frame : Nat} {m : Machine} {ap : AP} {S : Set Nat} {p room : Nat} {type : UInt8}

-- The type of a value is stored before its union, and stays.
theorem unionSim {α : Type} {post : Memory → Set Nat → α → Prop} (value : α → AV) {x : Res (α × Int × AP)}
    {y : Except Stop (Int × Machine)} (fits : typeSize ≤ room) (used : extent p room ⊆ known process frame S)
    (stored : intAt m.bytes p = type.toNat)
    (sim : Simulates (Yields process frame m S (extent (p + unionOffset) (room - unionOffset)) post) x y)
    (means : ∀ mem F a, post mem F a → intAt mem p = type.toNat → width (value a) ≤ room ∧ Holds mem F p (value a)) :
    Simulates (Yields process frame m S (extent p room) (ValueAt room p))
      (x >>= fun r => .ok (value r.1, r.2.1, r.2.2)) y := by
  refine simulatesMap sim ?_
  rintro ⟨a, n, ap'⟩ ⟨n', m'⟩ ⟨sum, F, reached, held⟩
  dsimp only at sum reached held
  have kept : Set.EqOn m'.bytes m.bytes (extent p typeSize) :=
    reachedKeeps reached ((extentFront fits).trans used) (extentsApart (.inl (Nat.add_le_add_left (by decide) p)))
  exact ⟨sum, F, reachedWiden reached extentRest, means _ _ _ held ((intKept kept).trans stored)⟩

theorem scalarSim (n : Nat) (world : World process m ap S) (has : process.Has m.ppool.trunks p room)
    (bytes : Bytes → Bytes) (length : ∀ s : Bytes, s.length = n → (bytes s).length = n) :
    Simulates (Yields process frame m S (extent p room) fun mem _ s => n ≤ room ∧ s.length = n ∧ read mem p n = bytes s)
      (readSrc ap n >>= fun r => store room n >>= fun _ => .ok (r.1, n, r.2))
      (process.readSrc n m >>= fun r => process.store p (bytes r.1) r.2 >>= fun m => .ok ((n : Int), m)) := by
  refine simulatesBind (readSim (reachedHere frame (extent p room) world rfl rfl) n) ?_
  rintro ⟨_, ap'⟩ ⟨s, m₁⟩ ⟨rfl, size, _, pool, start⟩
  refine simulatesStore fun fits => ?_
  dsimp only at size pool start ⊢
  have same := length s size
  obtain ⟨m₂, stored, put, _, _, after⟩ := storedBytes start (bytes s) (same.symm ▸ Process.hasFront (pool ▸ has) fits)
    (same.symm ▸ Set.inter_subset_right.trans (extentFront fits))
  rw [stored, Fallible.okBind]
  rw [same] at put
  exact .ok ⟨rfl, ∅, after, fits, size, put⟩

theorem oneByte {s : Bytes} (one : s.length = 1) : s = [s.headD 0] := by
  obtain ⟨value, rfl⟩ := List.length_eq_one_iff.mp one
  rfl

theorem wideScalar {n : Nat} (wide : n + 1 ≤ room - unionOffset) : unionOffset + (n + 1) ≤ room := by
  omega

theorem widePayload (wide : akSize ≤ room - unionOffset) : avSize ≤ room := by
  unfold akSize unionOffset at wide
  unfold avSize
  omega

theorem payloadSim {decoder : Nat → Decoder AV} {run : Nat → Nat → Run Int}
    (implements : Implements process decoder run) (above : process.stack ≤ frame) (world : World process m ap S)
    (has : process.Has m.ppool.trunks p room) (fits : typeSize ≤ room)
    (used : extent p room ⊆ known process frame S) (stored : intAt m.bytes p = type.toNat) :
    Simulates (Yields process frame m S (extent p room) (ValueAt room p))
      (Amf.unpackPayload decoder (room - unionOffset) type ap)
      (process.unpackPayload run frame (p + unionOffset) type m) := by
  have has' : process.Has m.ppool.trunks (p + unionOffset) (room - unionOffset) := Process.hasRest has
  have used' : extent (p + unionOffset) (room - unionOffset) ⊆ known process frame S := extentRest.trans used
  by_cases plain : type ∈ payloadTags
  · simp only [payloadTags, List.mem_cons, List.not_mem_nil, or_false] at plain
    rcases plain with rfl | rfl | rfl | rfl | rfl | rfl | rfl
    · have sim := unionSim (fun s => .number (ofHostBytes 64 (loadData s))) fits used stored
        (scalarSim 8 world has' (fun s => hostBytes 8 (ofHostBytes 64 (loadData s))) fun s _ => hostBytesLength 8 _)
        fun mem F s held typed => ⟨wideScalar held.1, typed, held.2.2⟩
      simp only [bind_assoc, Fallible.okBind] at sim
      rw [payloadNumber, unpackDouble, bind_assoc]
      exact sim
    · have sim := unionSim (fun s => .boolean (s.headD 0)) fits used stored
        (scalarSim 1 world has' id fun _ length => length)
        fun mem F s held typed => ⟨wideScalar held.1, typed, Eq.trans (b := s) held.2.2 (oneByte held.2.1)⟩
      simp only [bind_assoc, Fallible.okBind] at sim
      rw [payloadBoolean, unpackByte, bind_assoc]
      exact sim
    · have sim := unionSim .string fits used stored (zstrSim world has' used')
        fun mem F s held typed => ⟨widePayload held.1, typed, held.2⟩
      rw [payloadString]
      exact sim
    · have sim := unionSim .hash fits used stored (hashSim implements above world has' used')
        fun mem F s held typed => ⟨widePayload held.1, typed, held.2⟩
      rw [payloadHash]
      exact sim
    · have sim := unionSim (fun s => .link (ofHostBytes 16 (loadData s))) fits used stored
        (scalarSim 2 world has' (fun s => hostBytes 2 (ofHostBytes 16 (loadData s))) fun s _ => hostBytesLength 2 _)
        fun mem F s held typed => ⟨wideScalar held.1, typed, held.2.2⟩
      simp only [bind_assoc, Fallible.okBind] at sim
      rw [payloadLink, unpackShort, bind_assoc]
      exact sim
    · have sim := unionSim .assocArray fits used stored (assocSim implements above world has' used')
        fun mem F s held typed => ⟨widePayload held.1, typed, held.2⟩
      rw [payloadAssocArray]
      exact sim
    · have sim := unionSim .array fits used stored (arraySim implements above world has' used')
        fun mem F s held typed => ⟨widePayload held.1, typed, held.2⟩
      rw [payloadArray]
      exact sim
  · have others : process.unpackPayload run frame (p + unionOffset) type m = .ok (0, m) := by
      simp only [payloadTags, List.mem_cons, List.not_mem_nil, or_false, not_or] at plain
      obtain ⟨number, boolean, string, hash, link, assocArray, array⟩ := plain
      rw [Process.unpackPayload, if_neg number, if_neg boolean, if_neg string, if_neg assocArray, if_neg hash,
        if_neg array, if_neg link]
    rw [others, Amf.unpackPayload, dif_pos plain]
    exact .ok ⟨rfl, ∅, reachedHere frame _ world rfl rfl, fits, stored⟩

end Unions

section Decoders
variable {process : Process} {decoder : Nat → Decoder AV} {run : Nat → Nat → Run Int}

theorem stepImplements (implements : Implements process decoder run) :
    Implements process (Amf.amfUnpackStep decoder) (process.amfUnpackStep run) := by
  intro frame m ap S p room above world has used
  have same : (process.data.length : Int) ≤ m.src ↔ ap.len ≤ ap.src := by
    rw [world.src, world.len]
  have front {n : Nat} (fits : n ≤ room) : known process frame S ∩ extent p n ⊆ extent p room :=
    Set.inter_subset_right.trans (extentFront fits)
  rw [Amf.amfUnpackStep, Process.amfUnpackStep]
  by_cases done : ap.len ≤ ap.src
  · rw [if_pos done, if_pos (same.mpr done)]
    refine simulatesStore fun fits => ?_
    obtain ⟨m', store', stored, _, _, reached⟩ := storedInt (reachedHere frame (extent p room) world rfl rfl) (p := p)
      (x := amfEnd.toNat) (by decide) (by decide) (Process.hasFront has fits) (front fits)
    rw [store', Fallible.okBind]
    exact .ok ⟨rfl, ∅, reached, fits, stored⟩
  · rw [if_neg done, if_neg (mt same.mp done), unpackByte]
    simp only [bind_assoc]
    refine simulatesBind (readSim (reachedHere frame (extent p room) world rfl rfl) 1) ?_
    rintro ⟨_, ap₁⟩ ⟨tag, m₁⟩ ⟨rfl, _, _, pool, start⟩
    simp only [Fallible.okBind]
    refine simulatesStore fun fits => ?_
    dsimp only at pool start ⊢
    have high := (tag.headD 0).toNat_lt
    obtain ⟨m₂, store₂, stored, _, _, typed⟩ := storedInt start (p := p) (x := (tag.headD 0).toNat) (by omega) (by omega)
      (Process.hasFront (pool ▸ has) fits) (front fits)
    rw [store₂, Fallible.okBind]
    refine simulatesBind (T := Yields process frame m S (extent p room) (ValueAt room p))
      (payloadSim implements above typed.world (Process.hasMore typed.trunks has) fits (used.trans knownMore) stored) ?_
    rintro ⟨v, n, ap₂⟩ ⟨_, m₃⟩ ⟨rfl, F, last, wide, held⟩
    dsimp only at last wide held
    have all := reachedTrans typed last Set.inter_subset_right
    rw [Set.empty_union] at all
    exact .ok ⟨rfl, F, all, wide, held⟩

theorem depthImplements (process : Process) (depth : Nat) :
    Implements process (Amf.amfUnpackDepth depth) (process.amfUnpackDepth depth) := by
  induction depth with
  | zero =>
    intro frame m ap S p room _ _ _ _
    exact .fault .hang
  | succ depth ih => exact stepImplements ih

theorem rootStands {process : Process} {ppool : Pool} (cut : ppool = (rtPoolAllocIn (rtPoolInit 0) Process.apSize).2)
    (placed : process.Placed ppool.trunks) : Stands process ppool [] ∅ := by
  subst cut
  refine ⟨placed, ⟨none, rfl⟩, by decide, Set.empty_subset _, ?_⟩
  exact ⟨by decide, by decide, Set.empty_disjoint _⟩

theorem unpackSim (process : Process) (bytes : Memory) :
    Simulates (fun r r' => r'.1 = r.2.1 ∧ ∃ F, Holds r'.2.bytes F process.stack r.1)
      (Amf.amfUnpack avSize (amfApAlloc rtPool process.data process.data.length)) (process.amfUnpack bytes) := by
  rw [Process.amfUnpack]
  split
  · rename_i placed
    have world : World process ⟨_, bytes, 0⟩ (amfApAlloc rtPool process.data process.data.length) ∅ :=
      ⟨rfl, rfl, rfl, rfl, Nat.zero_le _, rootStands rfl placed⟩
    have sim : Simulates _ (Amf.amfUnpackDepth (process.data.length + 1) avSize _)
        (process.amfUnpackDepth (process.data.length + 1) (process.stack + avSize) process.stack _) :=
      depthImplements process _ (Nat.le_add_right _ _) world (.inr (.inl (Nat.le_refl _))) fun a part => .inr part
    refine simulatesWeaken sim ?_
    rintro r r' ⟨sum, F, _, _, held⟩
    exact ⟨sum, F, held⟩
  · exact .exhausted _

end Decoders
end Rushkit.Amf.Raw
