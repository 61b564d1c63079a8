import Rushkit.AmfUnpack

/-! The grammar of AMF data, independent of the decoder: which bytes are a value or a
run of values, where bytes are cut off inside one, and what has to be stored in which block. -/
namespace Rushkit.Amf

/- A value, the loops inside one, and the loops of the `amf_ap_*` readers. `room` is what is
left of the block that a value or an element is stored in; the last three have a write buffer. -/
inductive Part where
  | value (room : Nat)
  | values (count : Nat)
  | elems (count room : Nat)
  | hash (held : Gathering)
  | arguments (held : Gathering)
  | list (held : Gathering)

-- `cut`: a field is longer than what is left. `spill`: something is stored behind its block.
-- `full`: a write buffer cannot take another element.
inductive Failure where
  | cut
  | spill
  | full

-- `asked` are the requests made of the pool by then.
inductive Outcome where
  | whole (ends : Bool) (asked : List Nat) (rest : Bytes)
  | fails (why : Failure)

namespace Outcome

-- What comes after `need` bytes are stored in `room`.
def after (need room : Nat) (o : Outcome) : Outcome := if need ≤ room then o else .fails .spill

-- The same bytes as part of a larger value, which is not itself a terminator.
def inner : Outcome → Outcome
  | .whole _ asked rest => .whole false asked rest
  | .fails why => .fails why

-- A whole part, and then `need` bytes stored in `room`.
def andStored (need room : Nat) : Outcome → Outcome
  | .whole ends asked rest => (whole ends asked rest).after need room
  | .fails why => .fails why

-- What comes after an element is put into a write buffer, which then takes `need` bytes.
def gathered (need block : Nat) (o : Outcome) : Outcome :=
  if need ≤ 1073741824 then o.after need block else .fails .full

end Outcome

inductive FixedWidth : UInt8 → Nat → Prop where
  | number : FixedWidth amfNumber 8
  | boolean : FixedWidth amfBoolean 1
  | link : FixedWidth amfLink 2

def tableBytes (count : Bytes) : Nat := sizeT (wireInt count * tableElemSize)

def arrayBytes (count : Bytes) : Nat := sizeT (wireInt count * avSize)

section Grammar
variable (ppool : Serving)

-- A string or a key. A negative length is longer than anything.
inductive Zstr (room : Nat) (asked : List Nat) : Bytes → Outcome → Prop where
  | whole (size content rest : Bytes) (two : size.length = 2) (length : wireShort size = content.length) :
      Zstr room asked (size ++ (content ++ rest))
        (((Outcome.whole false (content.length :: asked) rest).after content.length
          (ppool asked content.length)).after akSize room)
  | sizeCut (s : Bytes) (short : s.length < 2) : Zstr room asked s (.fails .cut)
  | contentCut (size rest : Bytes) (two : size.length = 2)
      (long : wireShort size < 0 ∨ (rest.length : Int) < wireShort size) :
      Zstr room asked (size ++ rest) ((Outcome.fails .cut).after akSize room)

inductive Reads : Part → List Nat → Bytes → Outcome → Prop where
  -- Behind the end of the data there is a terminator without a byte.
  | atEnd (room : Nat) (asked : List Nat) :
      Reads (.value room) asked [] ((Outcome.whole true asked []).after typeSize room)
  | plain (room : Nat) (asked : List Nat) (t : UInt8) (s : Bytes) (plain : t ∉ payloadTags) :
      Reads (.value room) asked (t :: s) ((Outcome.whole (decide (t = amfEnd)) asked s).after typeSize room)
  | fixed (room : Nat) (asked : List Nat) {t : UInt8} {width : Nat} (payload s : Bytes) (form : FixedWidth t width)
      (length : payload.length = width) : Reads (.value room) asked (t :: (payload ++ s))
        (((Outcome.whole false asked s).after width (room - unionOffset)).after typeSize room)
  | fixedCut (room : Nat) (asked : List Nat) {t : UInt8} {width : Nat} (s : Bytes) (form : FixedWidth t width)
      (short : s.length < width) : Reads (.value room) asked (t :: s) ((Outcome.fails .cut).after typeSize room)
  | string {room : Nat} {asked : List Nat} {s : Bytes} {o : Outcome}
      (content : Zstr ppool (room - unionOffset) asked s o) :
      Reads (.value room) asked (amfString :: s) (o.after typeSize room)
  | countCut (room : Nat) (asked : List Nat) (t : UInt8) (s : Bytes) (counted : t = amfAssocArray ∨ t = amfArray)
      (short : s.length < 4) : Reads (.value room) asked (t :: s) ((Outcome.fails .cut).after typeSize room)
  | assocArray {room : Nat} {asked : List Nat} {count s : Bytes} {o : Outcome} (four : count.length = 4)
      (elements : Reads (.elems (wireInt count).toNat (ppool asked (tableBytes count % 2 ^ 32)))
        (tableBytes count % 2 ^ 32 :: asked) s o) :
      Reads (.value room) asked (amfAssocArray :: (count ++ s))
        ((o.inner.after akSize (room - unionOffset)).after typeSize room)
  | array {room : Nat} {asked : List Nat} {count s : Bytes} {o : Outcome} (four : count.length = 4)
      (elements : Reads (.values (wireInt count).toNat) (arrayBytes count % 2 ^ 32 :: asked) s o) :
      Reads (.value room) asked (amfArray :: (count ++ s))
        (((o.inner.after akSize (room - unionOffset)).after (arrayBytes count)
          (ppool asked (arrayBytes count % 2 ^ 32))).after typeSize room)
  | hashed {room : Nat} {asked : List Nat} {s : Bytes} {o : Outcome}
      (elements : Reads (.hash (.init ppool asked 512)) (512 :: asked) s o) :
      Reads (.value room) asked (amfHash :: s)
        ((o.inner.andStored akSize (room - unionOffset)).after typeSize room)
  | valuesDone (asked : List Nat) (s : Bytes) : Reads (.values 0) asked s (.whole false asked s)
  | valuesFail {count : Nat} {asked : List Nat} {s : Bytes} {why : Failure}
      (head : Reads (.value avSize) asked s (.fails why)) : Reads (.values (count+1)) asked s (.fails why)
  | valuesMore {count : Nat} {asked asked₁ : List Nat} {s mid : Bytes} {ends : Bool} {o : Outcome}
      (head : Reads (.value avSize) asked s (.whole ends asked₁ mid)) (tail : Reads (.values count) asked₁ mid o) :
      Reads (.values (count+1)) asked s o
  | elemsDone (room : Nat) (asked : List Nat) (s : Bytes) : Reads (.elems 0 room) asked s (.whole false asked s)
  | elemsKeyFail {count room : Nat} {asked : List Nat} {s : Bytes} {why : Failure}
      (key : Zstr ppool room asked s (.fails why)) : Reads (.elems (count+1) room) asked s (.fails why)
  | elemsFail {count room : Nat} {asked asked₁ : List Nat} {s mid : Bytes} {why : Failure}
      (key : Zstr ppool room asked s (.whole false asked₁ mid))
      (head : Reads (.value (room - akSize)) asked₁ mid (.fails why)) :
      Reads (.elems (count+1) room) asked s (.fails why)
  | elemsStop {count room : Nat} {asked asked₁ asked₂ : List Nat} {s mid rest : Bytes}
      (key : Zstr ppool room asked s (.whole false asked₁ mid))
      (stop : Reads (.value (room - akSize)) asked₁ mid (.whole true asked₂ rest)) :
      Reads (.elems (count+1) room) asked s (.whole false asked₂ rest)
  | elemsMore {count room : Nat} {asked asked₁ asked₂ : List Nat} {s mid next : Bytes} {o : Outcome}
      (key : Zstr ppool room asked s (.whole false asked₁ mid))
      (head : Reads (.value (room - akSize)) asked₁ mid (.whole false asked₂ next))
      (tail : Reads (.elems count (room - tableElemSize)) asked₂ next o) :
      Reads (.elems (count+1) room) asked s o
  | hashKeyFail {held : Gathering} {asked : List Nat} {s : Bytes} {why : Failure}
      (key : Zstr ppool akSize asked s (.fails why)) : Reads (.hash held) asked s (.fails why)
  | hashFail {held : Gathering} {asked asked₁ : List Nat} {s mid : Bytes} {why : Failure}
      (key : Zstr ppool akSize asked s (.whole false asked₁ mid))
      (head : Reads (.value avSize) asked₁ mid (.fails why)) : Reads (.hash held) asked s (.fails why)
  | hashStop {held : Gathering} {asked asked₁ asked₂ : List Nat} {s mid rest : Bytes}
      (key : Zstr ppool akSize asked s (.whole false asked₁ mid))
      (stop : Reads (.value avSize) asked₁ mid (.whole true asked₂ rest)) :
      Reads (.hash held) asked s (.whole false asked₂ rest)
  | hashMore {held : Gathering} {asked asked₁ asked₂ : List Nat} {s mid next : Bytes} {o : Outcome}
      (key : Zstr ppool akSize asked s (.whole false asked₁ mid))
      (head : Reads (.value avSize) asked₁ mid (.whole false asked₂ next))
      (tail : Reads (.hash (held.next ppool asked₂ tableElemSize)) (held.nextAsked asked₂ tableElemSize) next o) :
      Reads (.hash held) asked s
        (o.gathered (held.need tableElemSize) (held.next ppool asked₂ tableElemSize).block)
  | argumentsDone (held : Gathering) (asked : List Nat) :
      Reads (.arguments held) asked [] (.whole false asked [])
  | argumentsFail {held : Gathering} {asked : List Nat} {s : Bytes} {why : Failure} (some : s ≠ [])
      (head : Reads (.value avSize) asked s (.fails why)) : Reads (.arguments held) asked s (.fails why)
  | argumentsMore {held : Gathering} {asked asked₁ : List Nat} {s next : Bytes} {ends : Bool} {o : Outcome}
      (some : s ≠ []) (head : Reads (.value avSize) asked s (.whole ends asked₁ next))
      (tail : Reads (.arguments (held.next ppool asked₁ avSize)) (held.nextAsked asked₁ avSize) next o) :
      Reads (.arguments held) asked s (o.gathered (held.need avSize) (held.next ppool asked₁ avSize).block)
  | listFail {held : Gathering} {asked : List Nat} {s : Bytes} {why : Failure}
      (head : Reads (.value avSize) asked s (.fails why)) : Reads (.list held) asked s (.fails why)
  | listStop {held : Gathering} {asked asked₁ : List Nat} {s rest : Bytes}
      (stop : Reads (.value avSize) asked s (.whole true asked₁ rest)) :
      Reads (.list held) asked s (.whole false asked₁ rest)
  | listMore {held : Gathering} {asked asked₁ : List Nat} {s next : Bytes} {o : Outcome}
      (head : Reads (.value avSize) asked s (.whole false asked₁ next))
      (tail : Reads (.list (held.next ppool asked₁ avSize)) (held.nextAsked asked₁ avSize) next o) :
      Reads (.list held) asked s (o.gathered (held.need avSize) (held.next ppool asked₁ avSize).block)

end Grammar

section Outcomes
variable {o : Outcome} {need room : Nat} {ends : Bool} {asked : List Nat} {rest : Bytes}

theorem afterWhole (h : o.after need room = .whole ends asked rest) :
    need ≤ room ∧ o = .whole ends asked rest := by
  unfold Outcome.after at h
  split at h
  · rename_i fits
    exact ⟨fits, h⟩
  · contradiction

theorem innerWhole (h : o.inner = .whole ends asked rest) : ∃ before, o = .whole before asked rest := by
  cases o with
  | whole before after left =>
    cases h
    exact ⟨before, rfl⟩
  | fails why => contradiction

theorem storedWhole (h : o.andStored need room = .whole ends asked rest) :
    need ≤ room ∧ o = .whole ends asked rest := by
  cases o with
  | whole before after left => exact afterWhole h
  | fails why => contradiction

theorem gatheredWhole (h : o.gathered need room = .whole ends asked rest) :
    need ≤ room ∧ o = .whole ends asked rest := by
  unfold Outcome.gathered at h
  split at h
  · exact afterWhole h
  · contradiction

end Outcomes

section Suffixes
variable {ppool : Serving}

theorem zstrWhole {room : Nat} {asked asked' : List Nat} {s rest : Bytes} {ends : Bool}
    (key : Zstr ppool room asked s (.whole ends asked' rest)) : ∃ size content, size.length = 2 ∧
      wireShort size = (content : Bytes).length ∧ s = size ++ (content ++ rest) ∧ ends = false ∧
      asked' = content.length :: asked ∧ akSize ≤ room ∧ content.length ≤ ppool asked content.length := by
  generalize same : Outcome.whole ends asked' rest = o at key
  cases key with
  | whole size content rest two length =>
    obtain ⟨fits, same⟩ := afterWhole same.symm
    obtain ⟨block, same⟩ := afterWhole same
    cases same
    exact ⟨size, content, two, length, rfl, rfl, rfl, fits, block⟩
  | sizeCut s short => contradiction
  | contentCut size rest two long => exact absurd (afterWhole same.symm).2 (by simp)

theorem zstrSuffix {room : Nat} {asked asked' : List Nat} {s rest : Bytes} {ends : Bool}
    (key : Zstr ppool room asked s (.whole ends asked' rest)) : rest <:+ s := by
  obtain ⟨size, content, _, _, rfl, _⟩ := zstrWhole key
  rw [← List.append_assoc]
  exact List.suffix_append _ rest

theorem zstrLength {room : Nat} {asked asked' : List Nat} {s rest : Bytes} {ends : Bool}
    (key : Zstr ppool room asked s (.whole ends asked' rest)) : rest.length + 2 ≤ s.length := by
  obtain ⟨size, content, two, _, rfl, _⟩ := zstrWhole key
  rw [List.length_append, List.length_append]
  omega

theorem readsSuffix {part : Part} {asked : List Nat} {s : Bytes} {o : Outcome}
    (reads : Reads ppool part asked s o) :
    ∀ ends asked' rest, o = .whole ends asked' rest → rest <:+ s := by
  induction reads with
  | atEnd =>
    intro ends asked' rest same
    cases (afterWhole same).2
    exact List.suffix_rfl
  | valuesDone | elemsDone | argumentsDone =>
    intro ends asked' rest same
    cases same
    exact List.suffix_rfl
  | plain room asked t s plain =>
    intro ends asked' rest same
    cases (afterWhole same).2
    exact List.suffix_cons t s
  | fixed room asked payload s form length =>
    intro ends asked' rest same
    cases (afterWhole (afterWhole same).2).2
    exact (List.suffix_append payload s).trans (List.suffix_cons _ _)
  | string content =>
    intro ends asked' rest same
    cases (afterWhole same).2
    exact (zstrSuffix content).trans (List.suffix_cons _ _)
  | fixedCut | countCut =>
    intro ends asked' rest same
    exact absurd (afterWhole same).2 (by simp)
  | valuesFail | elemsKeyFail | elemsFail | hashKeyFail | hashFail | argumentsFail | listFail =>
    intro ends asked' rest same
    contradiction
  | assocArray four elements ih =>
    intro ends asked' rest same
    obtain ⟨before, whole⟩ := innerWhole (afterWhole (afterWhole same).2).2
    exact ((ih before asked' rest whole).trans (List.suffix_append _ _)).trans (List.suffix_cons _ _)
  | array four elements ih =>
    intro ends asked' rest same
    obtain ⟨before, whole⟩ := innerWhole (afterWhole (afterWhole (afterWhole same).2).2).2
    exact ((ih before asked' rest whole).trans (List.suffix_append _ _)).trans (List.suffix_cons _ _)
  | hashed elements ih =>
    intro ends asked' rest same
    obtain ⟨before, whole⟩ := innerWhole (storedWhole (afterWhole same).2).2
    exact (ih before asked' rest whole).trans (List.suffix_cons _ _)
  | valuesMore head tail ihHead ihTail =>
    intro ends asked' rest same
    exact (ihTail ends asked' rest same).trans (ihHead _ _ _ rfl)
  | elemsStop key stop ih | hashStop key stop ih =>
    intro ends asked' rest same
    cases same
    exact (ih _ _ _ rfl).trans (zstrSuffix key)
  | elemsMore key head tail ihHead ihTail =>
    intro ends asked' rest same
    exact ((ihTail ends asked' rest same).trans (ihHead _ _ _ rfl)).trans (zstrSuffix key)
  | hashMore key head tail ihHead ihTail =>
    intro ends asked' rest same
    exact ((ihTail ends asked' rest (gatheredWhole same).2).trans (ihHead _ _ _ rfl)).trans (zstrSuffix key)
  | argumentsMore some head tail ihHead ihTail =>
    intro ends asked' rest same
    exact (ihTail ends asked' rest (gatheredWhole same).2).trans (ihHead _ _ _ rfl)
  | listMore head tail ihHead ihTail =>
    intro ends asked' rest same
    exact (ihTail ends asked' rest (gatheredWhole same).2).trans (ihHead _ _ _ rfl)
  | listStop stop ih =>
    intro ends asked' rest same
    cases same
    exact ih _ _ _ rfl

theorem valueShrinks {room : Nat} {asked asked' : List Nat} {s rest : Bytes} {ends : Bool}
    (reads : Reads ppool (.value room) asked s (.whole ends asked' rest)) (some : s ≠ []) :
    rest.length < s.length := by
  have tagged {t : UInt8} {s : Bytes} (within : rest <:+ s) : rest.length < (t :: s).length :=
    Nat.lt_succ_of_le within.length_le
  generalize same : Outcome.whole ends asked' rest = o at reads
  replace same := same.symm
  cases reads with
  | atEnd => contradiction
  | plain room asked t s plain =>
    cases (afterWhole same).2
    exact tagged List.suffix_rfl
  | fixed room asked payload s form length =>
    cases (afterWhole (afterWhole same).2).2
    exact tagged (List.suffix_append payload rest)
  | string content =>
    cases (afterWhole same).2
    exact tagged (zstrSuffix content)
  | fixedCut | countCut => exact absurd (afterWhole same).2 (by simp)
  | assocArray four elements =>
    obtain ⟨before, whole⟩ := innerWhole (afterWhole (afterWhole same).2).2
    exact tagged ((readsSuffix elements before _ rest whole).trans (List.suffix_append _ _))
  | array four elements =>
    obtain ⟨before, whole⟩ := innerWhole (afterWhole (afterWhole (afterWhole same).2).2).2
    exact tagged ((readsSuffix elements before _ rest whole).trans (List.suffix_append _ _))
  | hashed elements =>
    obtain ⟨before, whole⟩ := innerWhole (storedWhole (afterWhole same).2).2
    exact tagged (readsSuffix elements before _ rest whole)

theorem wholeFalseSome {room : Nat} {asked asked' : List Nat} {s rest : Bytes}
    (reads : Reads ppool (.value room) asked s (.whole false asked' rest)) : s ≠ [] := by
  rintro rfl
  generalize same : Outcome.whole false asked' rest = o at reads
  cases reads with
  | atEnd => exact absurd (afterWhole same.symm).2 (by simp)

end Suffixes

theorem fourSplit (s : Bytes) : s.length < 4 ∨ ∃ count rest, count.length = 4 ∧ s = count ++ rest := by
  rcases Nat.lt_or_ge s.length 4 with short | enough
  · exact .inl short
  · exact .inr ⟨s.take 4, s.drop 4, by rw [List.length_take]; omega, (List.take_append_drop 4 s).symm⟩

section Totality
variable {ppool : Serving}

theorem zstrTotal (ppool : Serving) (room : Nat) (asked : List Nat) (s : Bytes) : ∃ o, Zstr ppool room asked s o := by
  rcases Nat.lt_or_ge s.length 2 with short | enough
  · exact ⟨_, .sizeCut s short⟩
  have two : (s.take 2).length = 2 := by rw [List.length_take]; omega
  have whole := List.take_append_drop 2 s
  rcases Classical.em (wireShort (s.take 2) < 0 ∨ ((s.drop 2).length : Int) < wireShort (s.take 2)) with
    long | fits
  · have cut : Zstr ppool room asked _ _ := .contentCut (s.take 2) (s.drop 2) two long
    rw [whole] at cut
    exact ⟨_, cut⟩
  · have size : wireShort (s.take 2) = ((s.drop 2).take (wireShort (s.take 2)).toNat).length := by
      rw [List.length_take]
      omega
    have key : Zstr ppool room asked _ _ :=
      .whole (s.take 2) _ ((s.drop 2).drop (wireShort (s.take 2)).toNat) two size
    rw [List.take_append_drop, whole] at key
    exact ⟨_, key⟩

theorem fixedTotal {t : UInt8} {width : Nat} (form : FixedWidth t width) (room : Nat) (asked : List Nat)
    (s : Bytes) : ∃ o, Reads ppool (.value room) asked (t :: s) o := by
  rcases Nat.lt_or_ge s.length width with short | enough
  · exact ⟨_, .fixedCut room asked s form short⟩
  · have length : (s.take width).length = width := by
      rw [List.length_take]
      omega
    have reads : Reads ppool (.value room) asked _ _ := .fixed room asked (s.take width) (s.drop width) form length
    rw [List.take_append_drop] at reads
    exact ⟨_, reads⟩

section Parts
variable {s : Bytes}
  (shorter : ∀ rest : Bytes, rest.length < s.length → ∀ part asked, ∃ o, Reads ppool part asked rest o)
include shorter

theorem valueTotal (room : Nat) (asked : List Nat) : ∃ o, Reads ppool (.value room) asked s o := by
  cases s with
  | nil => exact ⟨_, .atEnd room asked⟩
  | cons t s =>
    rcases Classical.em (t ∈ payloadTags) with payload | plain
    case inr => exact ⟨_, .plain room asked t s plain⟩
    simp only [payloadTags, List.mem_cons, List.not_mem_nil, or_false] at payload
    have counted (o : t = amfAssocArray ∨ t = amfArray) : (∃ o, Reads ppool (.value room) asked (t :: s) o) ∨
        ∃ count rest, count.length = 4 ∧ s = count ++ rest ∧ ∀ part asked, ∃ o, Reads ppool part asked rest o := by
      rcases fourSplit s with short | ⟨count, rest, four, rfl⟩
      · exact .inl ⟨_, .countCut room asked t s o short⟩
      · refine .inr ⟨count, rest, four, rfl, shorter rest ?_⟩
        rw [List.length_cons, List.length_append]
        omega
    rcases payload with rfl | rfl | rfl | rfl | rfl | rfl | rfl
    · exact fixedTotal .number room asked s
    · exact fixedTotal .boolean room asked s
    · obtain ⟨o, content⟩ := zstrTotal ppool (room - unionOffset) asked s
      exact ⟨_, .string content⟩
    · obtain ⟨o, elements⟩ := shorter s (Nat.lt_succ_self _) (.hash (.init ppool asked 512)) (512 :: asked)
      exact ⟨_, .hashed elements⟩
    · exact fixedTotal .link room asked s
    · rcases counted (.inl rfl) with done | ⟨count, rest, four, rfl, inner⟩
      · exact done
      · obtain ⟨o, elements⟩ := inner (.elems (wireInt count).toNat (ppool asked (tableBytes count % 2 ^ 32)))
          (tableBytes count % 2 ^ 32 :: asked)
        exact ⟨_, .assocArray four elements⟩
    · rcases counted (.inr rfl) with done | ⟨count, rest, four, rfl, inner⟩
      · exact done
      · obtain ⟨o, elements⟩ := inner (.values (wireInt count).toNat) (arrayBytes count % 2 ^ 32 :: asked)
        exact ⟨_, .array four elements⟩

theorem elemTotal (keyRoom valueRoom : Nat) (asked : List Nat) :
    (∃ why, Zstr ppool keyRoom asked s (.fails why)) ∨
    (∃ asked₁ mid why, Zstr ppool keyRoom asked s (.whole false asked₁ mid) ∧
      Reads ppool (.value valueRoom) asked₁ mid (.fails why)) ∨
    ∃ asked₁ mid ends asked₂ next, Zstr ppool keyRoom asked s (.whole false asked₁ mid) ∧
      Reads ppool (.value valueRoom) asked₁ mid (.whole ends asked₂ next) ∧ next.length < s.length := by
  obtain ⟨o, key⟩ : ∃ o, Zstr ppool keyRoom asked s o := zstrTotal ppool keyRoom asked s
  cases o with
  | fails why => exact .inl ⟨why, key⟩
  | whole ends asked₁ mid =>
    obtain ⟨_, _, _, _, _, rfl, _⟩ := zstrWhole key
    have fewer := zstrLength key
    obtain ⟨o, head⟩ := shorter mid (by omega) (.value valueRoom) asked₁
    cases o with
    | fails why => exact .inr (.inl ⟨asked₁, mid, why, key, head⟩)
    | whole ends asked₂ next =>
      have within := (readsSuffix head ends asked₂ next rfl).length_le
      exact .inr (.inr ⟨asked₁, mid, ends, asked₂, next, key, head, by omega⟩)

theorem valuesTotal (count : Nat) (asked : List Nat) (t : Bytes) (within : t.length ≤ s.length) :
    ∃ o, Reads ppool (.values count) asked t o := by
  induction count generalizing asked t with
  | zero => exact ⟨_, .valuesDone asked t⟩
  | succ count ih =>
    obtain ⟨o, head⟩ := valueTotal (fun rest (h : rest.length < t.length) =>
      shorter rest (Nat.lt_of_lt_of_le h within)) avSize asked
    cases o with
    | fails why => exact ⟨_, .valuesFail head⟩
    | whole ends asked₁ mid =>
      have less := (readsSuffix head ends asked₁ mid rfl).length_le
      obtain ⟨o, tail⟩ := ih asked₁ mid (by omega)
      exact ⟨o, .valuesMore head tail⟩

theorem partTotal (part : Part) (asked : List Nat) : ∃ o, Reads ppool part asked s o := by
  cases part with
  | value room => exact valueTotal shorter room asked
  | values count => exact valuesTotal shorter count asked s (Nat.le_refl _)
  | elems count room =>
    cases count with
    | zero => exact ⟨_, .elemsDone room asked s⟩
    | succ count =>
      rcases elemTotal shorter room (room - akSize) asked with
        ⟨why, key⟩ | ⟨asked₁, mid, why, key, head⟩ | ⟨asked₁, mid, ends, asked₂, next, key, head, less⟩
      · exact ⟨_, .elemsKeyFail key⟩
      · exact ⟨_, .elemsFail key head⟩
      · cases ends with
        | true => exact ⟨_, .elemsStop key head⟩
        | false =>
          obtain ⟨o, tail⟩ := shorter next less (.elems count (room - tableElemSize)) asked₂
          exact ⟨o, .elemsMore key head tail⟩
  | hash held =>
    rcases elemTotal shorter akSize avSize asked with
      ⟨why, key⟩ | ⟨asked₁, mid, why, key, head⟩ | ⟨asked₁, mid, ends, asked₂, next, key, head, less⟩
    · exact ⟨_, .hashKeyFail key⟩
    · exact ⟨_, .hashFail key head⟩
    · cases ends with
      | true => exact ⟨_, .hashStop key head⟩
      | false =>
        obtain ⟨o, tail⟩ := shorter next less (.hash (held.next ppool asked₂ tableElemSize))
          (held.nextAsked asked₂ tableElemSize)
        exact ⟨_, .hashMore key head tail⟩
  | arguments held =>
    rcases eq_or_ne s [] with rfl | some
    · exact ⟨_, .argumentsDone held asked⟩
    obtain ⟨o, head⟩ := valueTotal shorter avSize asked
    cases o with
    | fails why => exact ⟨_, .argumentsFail some head⟩
    | whole ends asked₁ next =>
      obtain ⟨o, tail⟩ := shorter next (valueShrinks head some) (.arguments (held.next ppool asked₁ avSize))
        (held.nextAsked asked₁ avSize)
      exact ⟨_, .argumentsMore some head tail⟩
  | list held =>
    obtain ⟨o, head⟩ := valueTotal shorter avSize asked
    cases o with
    | fails why => exact ⟨_, .listFail head⟩
    | whole ends asked₁ next =>
      cases ends with
      | true => exact ⟨_, .listStop head⟩
      | false =>
        obtain ⟨o, tail⟩ := shorter next (valueShrinks head (wholeFalseSome head))
          (.list (held.next ppool asked₁ avSize)) (held.nextAsked asked₁ avSize)
        exact ⟨_, .listMore head tail⟩

end Parts

theorem readsTotal (ppool : Serving) (s : Bytes) (part : Part) (asked : List Nat) : ∃ o, Reads ppool part asked s o := by
  have bounded (n : Nat) : ∀ s : Bytes, s.length < n → ∀ part asked, ∃ o, Reads ppool part asked s o := by
    induction n with
    | zero => exact fun s h => absurd h (Nat.not_lt_zero _)
    | succ n ih =>
      exact fun s h => partTotal fun rest less => ih rest (Nat.lt_of_lt_of_le less (Nat.le_of_lt_succ h))
  exact bounded (s.length + 1) s (Nat.lt_succ_self _) part asked

end Totality

end Rushkit.Amf
