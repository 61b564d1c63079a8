import Rushkit.AmfBlocks
import Rushkit.AmfHolds

/-! `amf_unpack` over memory against `amf_unpack` over values. As long as no store leaves the
block it is made in, both go on alike, and the memory holds the value that is returned. -/
namespace Rushkit.Amf.Raw
open ByteMemory

section Simulations
variable {α β γ δ : Type} {R : α → β → Prop} {T : γ → δ → Prop}

-- Nothing is said of what comes after a store outside a block.
inductive Simulates (R : α → β → Prop) : Res α → Except Stop β → Prop where
  | spilled (y : Except Stop β) : Simulates R (.error .overWrite) y
  | exhausted (x : Res α) : Simulates R x (.error .exhausted)
  | fault (e : Fault) : Simulates R (.error e) (.error (.fault e))
  | ok {a : α} {b : β} (h : R a b) : Simulates R (.ok a) (.ok b)

theorem simulatesBind {x : Res α} {y : Except Stop β} {f : α → Res γ} {g : β → Except Stop δ}
    (first : Simulates R x y) (next : ∀ a b, R a b → Simulates T (f a) (g b)) :
    Simulates T (x >>= f) (y >>= g) := by
  cases first with
  | spilled y => exact .spilled _
  | exhausted x => exact .exhausted _
  | fault e => exact .fault e
  | ok h => exact next _ _ h

theorem simulatesWeaken {R' : α → β → Prop} {x : Res α} {y : Except Stop β} (sim : Simulates R x y)
    (weaker : ∀ a b, R a b → R' a b) : Simulates R' x y := by
  cases sim with
  | spilled y => exact .spilled y
  | exhausted x => exact .exhausted x
  | fault e => exact .fault e
  | ok h => exact .ok (weaker _ _ h)

-- A step of the first side alone.
theorem simulatesMap {x : Res α} {y : Except Stop β} {f : α → γ} {T : γ → β → Prop} (sim : Simulates R x y)
    (next : ∀ a b, R a b → T (f a) b) : Simulates T (x >>= fun a => .ok (f a)) y := by
  cases sim with
  | spilled y => exact .spilled y
  | exhausted x => exact .exhausted _
  | fault e => exact .fault e
  | ok h => exact .ok (next _ _ h)

theorem simulatesStore {room need : Nat} {f : Unit → Res γ} {y : Except Stop δ}
    (next : need ≤ room → Simulates T (f ()) y) : Simulates T (store room need >>= f) y := by
  by_cases fits : need ≤ room
  · rw [storeRoom fits, Fallible.okBind]
    exact next fits
  · rw [storeBehind fits, Fallible.errorBind]
    exact .spilled y

end Simulations

section Words
variable {mem : Memory} {p : Nat}

theorem intStored {x : Int} (low : -2147483648 ≤ x) (high : x < 2147483648) :
    intAt (write mem p (hostBytes 4 (BitVec.ofInt 32 x))) p = x := by
  rw [intAt, readWrite (hostBytesLength 4 _), ofHostBytesHostBytes 4 (Nat.le_refl _), BitVec.toInt_ofInt]
  exact Int.bmod_eq_of_le (by omega) (by omega)

theorem pointerStored {x : Nat} (address : x < 2 ^ 64) :
    pointerAt (write mem p (hostBytes 8 (BitVec.ofNat 64 x))) p = x := by
  rw [pointerAt, readWrite (hostBytesLength 8 _), ofHostBytesHostBytes 8 (Nat.le_refl _), BitVec.toNat_ofNat,
    Nat.mod_eq_of_lt address]

theorem intKept {mem' : Memory} (same : Set.EqOn mem' mem (extent p 4)) : intAt mem' p = intAt mem p := by
  rw [intAt, intAt, readKept same Set.Subset.rfl]

theorem pointerKept {mem' : Memory} (same : Set.EqOn mem' mem (extent p 8)) : pointerAt mem' p = pointerAt mem p := by
  rw [pointerAt, pointerAt, readKept same Set.Subset.rfl]

end Words

variable (process : Process) (frame : Nat)

-- The bytes in use, those of the calls that wait included.
def known (S : Set Nat) : Set Nat := S ∪ Set.Ico process.stack frame

structure World (m : Machine) (ap : AP) (S : Set Nat) : Prop where
  pool : ap.ppool = rtPool
  mem : ap.mem = process.data
  len : ap.len = process.data.length
  src : m.src = ap.src
  within : ap.src ≤ process.data.length
  stands : Stands process m.ppool ap.asked S

/- From `m` on only `W` and what was not in use has changed, and `F` has come into use. -/
structure Reached (m : Machine) (S W : Set Nat) (m' : Machine) (ap : AP) (F : Set Nat) : Prop where
  world : World process m' ap (S ∪ F)
  trunks : m.ppool.trunks <+: m'.ppool.trunks
  apart : Disjoint S F
  kept : Set.EqOn m'.bytes m.bytes (known process frame S \ W)

section Steps
variable {process frame} {m m' m'' : Machine} {ap ap' ap'' : AP} {S W W' F F' : Set Nat}

theorem reachedHere (frame : Nat) (W : Set Nat) (world : World process m' ap S) (pool : m'.ppool = m.ppool)
    (bytes : m'.bytes = m.bytes) : Reached process frame m S W m' ap ∅ where
  world := by
    rw [Set.union_empty]
    exact world
  trunks := pool ▸ List.prefix_rfl
  apart := Set.disjoint_empty S
  kept := bytes ▸ Set.eqOn_refl _ _

theorem reachedMove (reached : Reached process frame m S W m' ap' F) (world : World process m'' ap'' (S ∪ F))
    (pool : m''.ppool = m'.ppool) (bytes : m''.bytes = m'.bytes) : Reached process frame m S W m'' ap'' F where
  world := world
  trunks := pool ▸ reached.trunks
  apart := reached.apart
  kept := bytes ▸ reached.kept

theorem freshUnknown (frame : Nat) {ppool : Pool} {asked : List Nat} (stands : Stands process ppool asked (S ∪ F))
    (apart : Disjoint S F) : Disjoint (known process frame S) F := by
  refine Set.disjoint_union_left.mpr ⟨apart, Set.disjoint_left.mpr fun a frame fresh => ?_⟩
  have below := Process.reachesBelow stands.placed (stands.inside (.inr fresh))
  have above := frame.1
  omega

theorem knownMore : known process frame S ⊆ known process frame (S ∪ F) :=
  Set.union_subset_union_left _ Set.subset_union_left

theorem knownFresh : F ⊆ known process frame (S ∪ F) :=
  Set.subset_union_right.trans Set.subset_union_left

theorem reachedFresh (reached : Reached process frame m S W m' ap' F) : Disjoint (known process frame S) F :=
  freshUnknown frame reached.world.stands reached.apart

theorem reachedKeeps (reached : Reached process frame m S W m' ap' F) {T : Set Nat}
    (inside : T ⊆ known process frame S) (apart : Disjoint T W) : Set.EqOn m'.bytes m.bytes T :=
  reached.kept.mono (Set.subset_sdiff.mpr ⟨inside, apart⟩)

theorem reachedWiden (reached : Reached process frame m S W m' ap' F) (wider : W ⊆ W') :
    Reached process frame m S W' m' ap' F where
  world := reached.world
  trunks := reached.trunks
  apart := reached.apart
  kept := reached.kept.mono (Set.sdiff_subset_sdiff_right wider)

theorem reachedLower {below : Nat} (reached : Reached process frame m S W m' ap' F) (lower : below ≤ frame) :
    Reached process below m S W m' ap' F where
  world := reached.world
  trunks := reached.trunks
  apart := reached.apart
  kept := reached.kept.mono
    (Set.sdiff_subset_sdiff_left (Set.union_subset_union_right _ (Set.Ico_subset_Ico_right lower)))

theorem reachedTrans (first : Reached process frame m S W m' ap' F)
    (second : Reached process frame m' (S ∪ F) W' m'' ap'' F') (writes : known process frame S ∩ W' ⊆ W) :
    Reached process frame m S W m'' ap'' (F ∪ F') where
  world := by
    rw [← Set.union_assoc]
    exact second.world
  trunks := first.trunks.trans second.trunks
  apart := Set.disjoint_union_right.mpr ⟨first.apart, second.apart.mono_left Set.subset_union_left⟩
  kept := by
    intro a ⟨inside, outside⟩
    have part : a ∈ known process frame (S ∪ F) := Set.union_subset_union_left _ Set.subset_union_left inside
    rw [second.kept ⟨part, fun written => outside (writes ⟨inside, written⟩)⟩]
    exact first.kept ⟨inside, outside⟩

theorem unwritten {K T : Set Nat} (apart : Disjoint K T) : K ∩ T ⊆ W :=
  apart.inter_eq.trans_subset (Set.empty_subset W)

theorem worldMove (world : World process m ap S) (pool : m'.ppool = m.ppool) (src : m'.src = m.src) :
    World process m' ap S where
  pool := world.pool
  mem := world.mem
  len := world.len
  src := src.trans world.src
  within := world.within
  stands := pool ▸ world.stands

-- A store into `W`, or into what was not in use.
theorem reachedPut (reached : Reached process frame m S W m' ap' F) {p : Nat} {s : Bytes}
    (inside : known process frame S ∩ extent p s.length ⊆ W) :
    Reached process frame m S W (m'.put p s) ap' F where
  world := worldMove reached.world rfl rfl
  trunks := reached.trunks
  apart := reached.apart
  kept := by
    intro a ⟨known, outside⟩
    have apart : a ∉ extent p s.length := fun part => outside (inside ⟨known, part⟩)
    exact (writeApart apart).trans (reached.kept ⟨known, outside⟩)

section Stores
variable (reached : Reached process frame m S W m' ap' F) {p : Nat}
include reached

theorem storedBytes (s : Bytes) (has : process.Has m'.ppool.trunks p s.length)
    (inside : known process frame S ∩ extent p s.length ⊆ W) :
    ∃ m'', process.store p s m' = .ok m'' ∧ read m''.bytes p s.length = s ∧ m''.ppool = m'.ppool ∧
      Set.EqOn m''.bytes m'.bytes (extent p s.length)ᶜ ∧ Reached process frame m S W m'' ap' F :=
  ⟨m'.put p s, if_pos has, readWrite rfl, rfl, writeApart, reachedPut reached inside⟩

theorem storedInt {x : Int} (low : -2147483648 ≤ x) (high : x < 2147483648)
    (has : process.Has m'.ppool.trunks p 4) (inside : known process frame S ∩ extent p 4 ⊆ W) :
    ∃ m'', process.storeInt p x m' = .ok m'' ∧ intAt m''.bytes p = x ∧ m''.ppool = m'.ppool ∧
      Set.EqOn m''.bytes m'.bytes (extent p 4)ᶜ ∧ Reached process frame m S W m'' ap' F :=
  ⟨m'.put p (hostBytes 4 (BitVec.ofInt 32 x)), if_pos has, intStored low high, rfl, writeApart,
    reachedPut reached inside⟩

theorem storedPointer {x : Nat} (address : x < 2 ^ 64) (has : process.Has m'.ppool.trunks p 8)
    (inside : known process frame S ∩ extent p 8 ⊆ W) :
    ∃ m'', process.storePointer p x m' = .ok m'' ∧ pointerAt m''.bytes p = x ∧ m''.ppool = m'.ppool ∧
      Set.EqOn m''.bytes m'.bytes (extent p 8)ᶜ ∧ Reached process frame m S W m'' ap' F :=
  ⟨m'.put p (hostBytes 8 (BitVec.ofNat 64 x)), if_pos has, pointerStored address, rfl, writeApart,
    reachedPut reached inside⟩

theorem storedZeros {n : Nat} (has : process.Has m'.ppool.trunks p n)
    (inside : known process frame S ∩ extent p n ⊆ W) :
    ∃ m'', process.storeZeros p n m' = .ok m'' ∧ m''.ppool = m'.ppool ∧
      Set.EqOn m''.bytes m'.bytes (extent p n)ᶜ ∧ Reached process frame m S W m'' ap' F := by
  have length : (List.replicate n (0 : UInt8)).length = n := List.length_replicate
  refine ⟨m'.put p (List.replicate n 0), if_pos has, rfl, ?_, reachedPut reached (length.symm ▸ inside)⟩
  have apart : Set.EqOn (write m'.bytes p (List.replicate n 0)) m'.bytes (extent p _)ᶜ := writeApart
  rw [length] at apart
  exact apart

end Stores

theorem requestSim (reached : Reached process frame m S W m' ap F) (size : Nat) :
    process.rtPoolAlloc size m' = .error .exhausted ∨
      ∃ p m'', process.rtPoolAlloc size m' = .ok (p, m'') ∧ m''.bytes = m'.bytes ∧ p < 2 ^ 64 ∧
        process.Has m''.ppool.trunks p (ap.request size).1 ∧ Disjoint F (extent p (ap.request size).1) ∧
        Disjoint (known process frame S) (extent p (ap.request size).1) ∧
        Reached process frame m S W m'' (ap.request size).2 (F ∪ extent p (ap.request size).1) := by
  by_cases placed : process.Placed (rtPoolAllocIn m'.ppool size).2.trunks
  · have world := reached.world
    have cut := allocCut world.stands size placed
    rw [AP.request, world.pool]
    dsimp only
    obtain ⟨old, new⟩ := Set.disjoint_union_left.mp cut.apart
    have stands := cut.stands
    rw [Set.union_assoc] at stands
    have both := Set.disjoint_union_right.mpr ⟨reached.apart, old⟩
    have fresh := (freshUnknown frame stands both).mono_right Set.subset_union_right
    refine .inr ⟨_, _, if_pos placed, rfl, cut.address, cut.has, new, fresh, ?_, ?_, both, reached.kept⟩
    · exact ⟨rfl, world.mem, world.len, world.src, world.within, stands⟩
    · exact reached.trunks.trans cut.grown
  · exact .inl (if_neg placed)

theorem peekSim (world : World process m ap S) (n : Int) :
    Simulates (fun r s => s = r.1 ∧ (s.length : Int) = n ∧ World process (m.advance n) r.2 S)
      (readSrc ap n) (process.peek n m) := by
  have within := world.within
  have src := world.src
  have same : (0 ≤ n ∧ n ≤ ap.ahead.length) ↔ 0 ≤ n ∧ 0 ≤ m.src ∧ m.src + n ≤ process.data.length := by
    rw [AP.ahead, List.length_drop, world.mem, src]
    omega
  by_cases enough : 0 ≤ n ∧ n ≤ ap.ahead.length
  · have taken : (ap.ahead.take n.toNat).length = n.toNat := by
      rw [List.length_take]
      omega
    rw [readSrc, if_pos enough, Process.peek, if_pos (same.mp enough)]
    refine .ok ⟨?_, ?_, world.pool, world.mem, world.len, ?_, ?_, world.stands⟩
    · rw [AP.ahead, world.mem, src]
      rfl
    · rw [← world.mem, src, Int.toNat_natCast]
      exact (congrArg Nat.cast taken).trans (Int.toNat_of_nonneg enough.1)
    · dsimp only [Machine.advance, AP.advance]
      omega
    · dsimp only [AP.advance]
      omega
  · rw [readSrc, if_neg enough, Process.peek, if_neg (mt same.mpr enough)]
    exact .fault _

theorem readSim (reached : Reached process frame m S W m' ap F) (n : Nat) :
    Simulates (fun r r' => r'.1 = r.1 ∧ r'.1.length = n ∧ r'.2.bytes = m'.bytes ∧ r'.2.ppool = m'.ppool ∧
      Reached process frame m S W r'.2 r.2 F) (readSrc ap n) (process.readSrc n m') := by
  have sim := peekSim reached.world n
  rw [Process.readSrc]
  generalize readSrc ap n = x at sim ⊢
  generalize process.peek n m' = y at sim ⊢
  cases sim with
  | spilled y => exact .spilled _
  | exhausted x => exact .exhausted x
  | fault e => exact .fault e
  | ok h =>
    obtain ⟨same, length, world⟩ := h
    exact .ok ⟨same, Int.ofNat_inj.mp length, rfl, rfl, reachedMove reached world rfl rfl⟩

end Steps
end Rushkit.Amf.Raw
