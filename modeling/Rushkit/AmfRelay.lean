import Rushkit.AmfRefinement
import Rushkit.AmfBounds
import Rushkit.AmfRoundTrip

/-! Decoded values encoded again. What the decoder builds lies where encoding is faithful,
whatever the bytes were that it came from, as long as it stores inside its blocks. -/
namespace Rushkit.Amf
open Raw

/- Of a value that the decoder leaves in memory, the bytes are decoded to the same value again
wherever there is memory for it. -/
def Relays (data : Bytes) : Prop :=
  ∀ (process process' : Process) (bytes bytes' : ByteMemory.Memory) (v : AV) (n : Int) (m : Machine),
    process.data = data → process.amfUnpack bytes = .ok (n, m) → Raw.Holds m.bytes Set.univ process.stack v →
      (amfPack v).length < 2147483648 → process'.data = amfPack v →
        process'.amfUnpack bytes' = .error .exhausted ∨ ∃ m', process'.amfUnpack bytes' = .ok ((amfPack v).length, m') ∧
          Raw.Holds m'.bytes Set.univ process'.stack v

theorem builtRelays {v : AV} (built : Built rtPoolAlloc v) (int : (amfPack v).length < 2147483648) :
    ∃ asked, amfUnpack avSize (amfApAlloc rtPool (amfPack v) (amfPack v).length) =
      .ok (v, (amfPack v).length, ⟨rtPool, asked, amfPack v, (amfPack v).length, (amfPack v).length⟩) := by
  have again := (unpackedAgain rtPoolSteady v [] built.encodable int).mpr ⟨built.hashes, built.blocks⟩
  rw [Returned, List.append_nil] at again
  exact again

theorem unpackSpills {data : Bytes} :
    amfUnpack avSize (amfApAlloc rtPool data data.length) = .error .overWrite ↔
      Reads rtPool (.value avSize) [] data (.fails .spill) := by
  have gives {o : Outcome} (reads : Reads rtPool (.value avSize) [] data o) :=
    unpackDeep (List.suffix_refl data) (decoderFollows rtPool data reads (List.suffix_refl data))
  rw [cursorStart]
  constructor
  · intro stops
    obtain ⟨o, reads⟩ := readsTotal rtPool data (.value avSize) []
    have result := gives reads
    rw [stops] at result
    cases o with
    | whole ends asked rest => contradiction
    | fails why =>
      cases why with
      | spill => exact reads
      | cut => cases result
      | full => cases result
  · intro reads
    exact resultFails (gives reads)

-- The value in memory is the one that the decoder of values returns.
theorem unpackedInMemory {process : Process} {bytes : ByteMemory.Memory} {n : Int} {m : Machine} {v : AV}
    (fits : amfUnpack avSize (amfApAlloc rtPool process.data process.data.length) ≠ .error .overWrite)
    (ran : process.amfUnpack bytes = .ok (n, m)) (held : Raw.Holds m.bytes Set.univ process.stack v) :
    ∃ ap, amfUnpack avSize (amfApAlloc rtPool process.data process.data.length) = .ok (v, n, ap) := by
  have sim := unpackSim process bytes
  rw [ran] at sim
  cases found : amfUnpack avSize (amfApAlloc rtPool process.data process.data.length) with
  | error e =>
    rw [found] at sim fits
    cases sim
    exact absurd rfl fits
  | ok r =>
    rw [found] at sim
    cases sim with
    | ok h =>
      obtain ⟨w, k, ap⟩ := r
      obtain ⟨same, F, there⟩ := h
      have same : n = k := same
      rw [holdsUnique v w held there, same]
      exact ⟨ap, rfl⟩

theorem decodedRelay {data : Bytes} (fits : ¬ Reads rtPool (.value avSize) [] data (.fails .spill)) : Relays data := by
  rintro process process' bytes bytes' v n m rfl ran held int packed
  obtain ⟨ap, decoded⟩ := unpackedInMemory (mt unpackSpills.mp fits) ran held
  obtain ⟨asked, again⟩ := builtRelays (amfUnpackBuilds rtPoolSteady decoded) int
  have sim := unpackSim process' bytes'
  rw [packed, again] at sim
  cases result : process'.amfUnpack bytes' with
  | error stop =>
    rw [result] at sim
    cases sim
    exact .inl rfl
  | ok r =>
    rw [result] at sim
    cases sim with
    | ok h =>
      obtain ⟨k, m'⟩ := r
      obtain ⟨same, F, there⟩ := h
      have same : k = (amfPack v).length := same
      exact .inr ⟨m', by rw [same], valueMore (Set.subset_univ F) there⟩

-- Trunks with room behind each of them.
def roomy (data : Bytes) : Process where
  data := data
  place i := 65536 * (i + 1)
  stack := 2 ^ 40
  low := by decide

/- A table that stops before its count, in a hash whose terminator has a key. -/
def loose : Bytes := [3] ++ [0, 1, 97] ++ [8, 0, 0, 0, 3] ++ [0, 0, 5] ++ [0, 0, 9] ++ [0, 2, 122, 122] ++ [9]

def tight : AV := .hash [⟨[97], .assocArray [⟨[], .nil⟩]⟩]

theorem looseRelayed : Relays loose ∧ ((roomy loose).amfUnpack fun _ => 0).map
    (fun r => (r.1, decide (Raw.Holds r.2.bytes Set.univ (2 ^ 40) tight))) = .ok (20, true) := by
  refine ⟨decodedRelay fun spills => ?_, by decide +kernel⟩
  have decoded : (amfUnpack avSize (amfApAlloc rtPool loose loose.length)).map (fun r => r.2.1) = .ok 20 := by decide
  rw [unpackSpills.mpr spills] at decoded
  cases decoded

/- A table of 107374183 elements has a block of 24 bytes. The key of the third is copied to
where the second has been stored, with a terminator's type at the place of its type. -/
def overlappingKey : Bytes := List.replicate 32 0 ++ [9, 0, 0, 0, 0, 0, 0, 0]

def overlapping : Bytes :=
  [8, 6, 102, 102, 103] ++ [0, 0, 5] ++ [0, 0, 5] ++ [0, 40] ++ overlappingKey ++ [5] ++ [0, 0, 9]

-- The table as it is left behind; its bytes are decoded to the first element alone.
def overlapped : AV := .assocArray [⟨[], .nil⟩, ⟨[], .end⟩, ⟨overlappingKey, .nil⟩]

theorem overlappedNotRelayed : ¬ Relays overlapping := by
  intro relays
  have left : ((roomy overlapping).amfUnpack fun _ => 0).map
      (fun r => decide (Raw.Holds r.2.bytes Set.univ (2 ^ 40) overlapped)) = .ok true := by decide +kernel
  have again : ((roomy (amfPack overlapped)).amfUnpack fun _ => 0).map (fun r => r.1) = .ok 11 := by decide +kernel
  cases ran : (roomy overlapping).amfUnpack fun _ => 0 with
  | error stop =>
    rw [ran] at left
    cases left
  | ok r =>
    rw [ran] at left
    have held := of_decide_eq_true (Except.ok.inj left)
    rcases relays (roomy overlapping) (roomy (amfPack overlapped)) _ (fun _ => 0) overlapped r.1 r.2 rfl ran held
      (by decide) rfl with none | ⟨m', whole, _⟩
    · rw [none] at again
      cases again
    · rw [whole] at again
      have same : ((amfPack overlapped).length : Int) = 11 := Except.ok.inj again
      exact absurd same (by decide)

end Rushkit.Amf
