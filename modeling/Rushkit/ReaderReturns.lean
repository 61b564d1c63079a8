import Rushkit.InboundMessage
import Rushkit.Library.DoWhile
import Rushkit.UnreadBytes

/-! When the loop of `rtmp_packet_get_packet` is left. From any state of the reader it
is left exactly on the bytes that complete a message, or a header that is refused. -/
namespace Rushkit
open DoWhile ReadBuffer

def packetBody (s : Option Packet × RtmpProto × ReadBuffer) :
    Res (Option Packet × RtmpProto × ReadBuffer) := packetStep s.2.1 s.2.2

def NoPacket (s : Option Packet × RtmpProto × ReadBuffer) : Prop := s.1 = none

instance : DecidablePred NoPacket := fun s => inferInstanceAs (Decidable (s.1 = none))

def Returns (proto : RtmpProto) (pb : ReadBuffer) : Prop :=
  ∃ pac proto' pb', Ends packetBody NoPacket (none, proto, pb) (pac, proto', pb') ∧
    (pac.isSome = true ∨ 0 < pb'.needMore)

section Stalls
variable {pb pb' : ReadBuffer}

theorem askStill {n : Int} (ask : rtmpRbAssertSize pb n = (false, pb')) : pb'.unread = pb.unread := by
  unfold rtmpRbAssertSize at ask
  split at ask <;> cases ask
  rfl

theorem fieldsStill {packetMask : Nat} {pchannel : Channel}
    (read : readFields packetMask pchannel pb = .ok (none, pb')) : pb'.unread = pb.unread := by
  unfold readFields at read
  split at read
  · split at read
    · rename_i ask
      cases read
      exact askStill ask
    · simp [Fallible.bindOk] at read
  · split at read
    · split at read
      · rename_i ask
        cases read
        exact askStill ask
      · simp [Fallible.bindOk] at read
    · split at read
      · split at read
        · rename_i ask
          cases read
          exact askStill ask
        · simp [Fallible.bindOk] at read
      · cases read

theorem addcodeStill {pchannel : Channel} (read : readAddcode pchannel pb = .ok (false, pb')) :
    pb'.unread = pb.unread := by
  unfold readAddcode at read
  split at read
  · split at read
    · rename_i ask
      cases read
      exact askStill ask
    · simp [Fallible.bindOk] at read
  · cases read

variable {proto proto' : RtmpProto}

theorem formProgress (step : getR2 proto pb = .ok (none, proto', pb')) :
    proto'.state = proto.state + 1 ∨ (proto' = proto ∧ pb'.unread = pb.unread) := by
  unfold getR2 at step
  split at step
  · split at step
    · rename_i ask
      cases step
      exact .inr ⟨rfl, askStill ask⟩
    · simp only [Fallible.bindOk] at step
      obtain ⟨_, _, last⟩ := step
      cases last
      exact .inl rfl
  · split at step
    · split at step
      · rename_i ask
        cases step
        exact .inr ⟨rfl, askStill ask⟩
      · simp only [Fallible.bindOk] at step
        obtain ⟨_, _, last⟩ := step
        cases last
        exact .inl rfl
    · cases step
      exact .inl rfl

theorem fieldsProgress (step : getR4 proto pb = .ok (none, proto', pb')) :
    proto'.state = proto.state + 1 ∨ (proto' = proto ∧ pb'.unread = pb.unread) := by
  simp only [getR4, Fallible.bindOk] at step
  obtain ⟨slot, _, ⟨fields, rest⟩, read, step⟩ := step
  cases fields with
  | none =>
    cases step
    exact .inr ⟨rfl, fieldsStill read⟩
  | some pchannel =>
    dsimp only at step
    split at step
    · simp [Fallible.bindOk] at step
    · cases step
      exact .inl rfl

theorem addcodeProgress (step : getR5 proto pb = .ok (none, proto', pb')) :
    proto'.state = proto.state + 1 ∨ (proto' = proto ∧ pb'.unread = pb.unread) := by
  simp only [getR5, Fallible.bindOk] at step
  obtain ⟨slot, _, ⟨arrived, rest⟩, read, step⟩ := step
  cases arrived with
  | false =>
    cases step
    exact .inr ⟨rfl, addcodeStill read⟩
  | true =>
    cases step
    exact .inl rfl

theorem payloadStill (step : getR6 proto pb = .ok (none, proto', pb')) :
    proto' = proto ∧ pb'.unread = pb.unread := by
  unfold getR6 at step
  obtain ⟨slot, _, step⟩ := Fallible.bindOk.mp step
  split at step
  · simp [Fallible.bindOk] at step
  · split at step
    · rename_i ask
      cases step
      exact ⟨rfl, askStill ask⟩
    · simp [Fallible.bindOk] at step

theorem stepProgress (low : proto.state ≤ 6) (step : packetStep proto pb = .ok (none, proto', pb')) :
    (proto.state < 6 ∧ proto'.state = proto.state + 1) ∨ (proto' = proto ∧ pb'.unread = pb.unread) := by
  rcases Nat.lt_or_ge proto.state 6 with room | last
  · have moved : proto'.state = proto.state + 1 ∨ (proto' = proto ∧ pb'.unread = pb.unread) := by
      unfold packetStep at step
      split at step
      · rename_i fresh
        cases step
        exact .inl (by rw [fresh]; rfl)
      · simp only [getR1, Fallible.bindOk] at step
        obtain ⟨_, _, last⟩ := step
        cases last
        exact .inl rfl
      · exact formProgress step
      · simp only [getR3, Fallible.bindOk] at step
        obtain ⟨_, _, last⟩ := step
        cases last
        exact .inl rfl
      · exact fieldsProgress step
      · exact addcodeProgress step
      · exact .inr (payloadStill step)
      · cases step
        exact .inr ⟨rfl, rfl⟩
    exact moved.imp_left fun up => ⟨room, up⟩
  · have final : proto.state = 6 := Nat.le_antisymm low last
    simp only [packetStep, final] at step
    exact .inr (payloadStill step)

end Stalls

theorem stalledNever {proto : RtmpProto} {pb pb' : ReadBuffer}
    (step : packetStep proto pb = .ok (none, proto, pb')) (same : pb'.unread = pb.unread)
    {s t : Option Packet × RtmpProto × ReadBuffer} (at' : s.2.1 = proto ∧ s.2.2.unread = pb.unread) :
    ¬ Ends packetBody NoPacket s t := by
  have keeps : ∀ s : Option Packet × RtmpProto × ReadBuffer, s.2.1 = proto ∧ s.2.2.unread = pb.unread →
      ∃ mid, packetBody s = .ok mid ∧ NoPacket mid ∧ mid.2.1 = proto ∧ mid.2.2.unread = pb.unread := ?_
  · exact endsNever keeps at'
  rintro ⟨pac, _, q⟩ ⟨rfl, left⟩
  obtain ⟨⟨_, _, q'⟩, step', none, kept, still⟩ := Fallible.relatedOk (stepAlike _ left.symm) step
  refine ⟨_, step', none.symm, kept.symm, still.symm.trans same⟩

theorem packetLoopBounded (fuel : Nat) (proto : RtmpProto) (pb : ReadBuffer) (before : Option Packet)
    {pac : Packet} {proto' : RtmpProto} {pb' : ReadBuffer} :
    packetLoop fuel proto pb = .ok (pac, proto', pb') ↔
      bounded packetBody NoPacket fuel (before, proto, pb) = some (.ok (some pac, proto', pb')) := by
  induction fuel generalizing proto pb before with
  | zero => simp [packetLoop, bounded]
  | succ fuel ih =>
    simp only [packetLoop, bounded, packetBody]
    rcases packetStep proto pb with e | ⟨_ | got, next, rest⟩
    · simp
    · simpa [NoPacket] using ih next rest none
    · simp [NoPacket]

theorem endsLoop {proto : RtmpProto} {pb : ReadBuffer} {t : Option Packet × RtmpProto × ReadBuffer}
    (low : proto.state ≤ 6) (ends : Ends packetBody NoPacket (none, proto, pb) t) :
    bounded packetBody NoPacket (7 - proto.state) (none, proto, pb) = some (.ok t) := by
  refine endsWithin (fun s => s.2.1.state) 6 ?_ ends low
  rintro ⟨_, proto, pb⟩ ⟨got, next, pb'⟩ low step rfl
  rcases stepProgress low step with up | ⟨rfl, same⟩
  · exact .inl up
  · exact .inr fun t => stalledNever step same ⟨rfl, same⟩

theorem returnsLoop {proto : RtmpProto} (low : proto.state ≤ 6) (pb : ReadBuffer) :
    Returns proto pb ↔ ∃ r, packetLoop (7 - proto.state) proto pb = .ok r := by
  constructor
  · rintro ⟨pac, proto', pb', ends, _⟩
    have loop := endsLoop low ends
    cases pac with
    | none => exact absurd (show NoPacket (none, proto', pb') from rfl) (endsStops ends)
    | some pac => exact ⟨_, (packetLoopBounded _ proto pb none).mpr loop⟩
  · rintro ⟨⟨pac, proto', pb'⟩, loop⟩
    have ends := boundedEnds _ ((packetLoopBounded _ proto pb none).mp loop)
    exact ⟨some pac, proto', pb', ends, .inl rfl⟩

theorem loopAlike (fuel : Nat) {proto : RtmpProto} {pb pb' : ReadBuffer}
    (same : pb.unread = pb'.unread) {r : Packet × RtmpProto × ReadBuffer}
    (loop : packetLoop fuel proto pb = .ok r) : ∃ r', packetLoop fuel proto pb' = .ok r' := by
  induction fuel generalizing proto pb pb' with
  | zero => cases loop
  | succ fuel ih =>
    simp only [packetLoop, Fallible.bindOk] at loop
    obtain ⟨⟨got, next, rest⟩, step, loop⟩ := loop
    obtain ⟨⟨_, _, rest'⟩, step', rfl, rfl, left⟩ := Fallible.relatedOk (stepAlike proto same) step
    cases got with
    | none =>
      obtain ⟨r', later⟩ := ih left loop
      exact ⟨r', (loopAdvance step' fuel).trans later⟩
    | some got => exact ⟨_, loopDone step' fuel⟩

/- The reader in each of its states, with the bytes it has consumed since it stood
between two packets at `start`. -/
inductive Stage (start : RtmpProto) : Bytes → RtmpProto → Prop where
  | between : Stage start [] start
  | started : Stage start [] (parsing start 1 0 0)
  | first (first : UInt8) :
      Stage start [first] (parsing start 2 (first.toNat / 64) (first.toNat % 64 : Nat))
  | basic {packetMask : Nat} {channelId : Int} {basic : Bytes}
      (named : BasicHeader packetMask channelId basic) :
      Stage start basic (parsing start 3 packetMask channelId)
  | number {packetMask : Nat} {channelId : Int} {basic : Bytes}
      (named : BasicHeader packetMask channelId basic) (low : channelId < 64) :
      Stage start basic (parsing start 4 packetMask channelId)
  | fields {slot : Fin 64} {channel : Channel} {head : Bytes}
      (header : Head start.channelsIn slot channel head) (small : channel.size < maxPacketSize) :
      Stage start head (parsingOn start slot channel 5 (headMask head))
  | opened {slot : Fin 64} {channel : Channel} {head : Bytes}
      (opened : Opened start.channelsIn slot channel head) :
      Stage start head
        (received start slot channel 6 (headMask head) (rtmpFwbReset channel.size))

theorem stageState {start proto : RtmpProto} (fresh : start.state = 0) {consumed : Bytes}
    (stage : Stage start consumed proto) : proto.state ≤ 6 := by
  cases stage with
  | between => omega
  | _ => exact Nat.le_of_ble_eq_true rfl

theorem getChannelInside {proto : RtmpProto} {slot : Fin 64} (h : rtmpProtoGetChannel proto = .ok slot) :
    proto.channelId = slot.val ∧ (proto.channelsIn slot).used = true := by
  simp only [rtmpProtoGetChannel, Fallible.bindOk] at h
  obtain ⟨_, _, entry, inside, _, used, last⟩ := h
  cases last
  exact ⟨tableEntryOk.mp inside, checkHolds used⟩

theorem stallsStay {proto proto' : RtmpProto} {pb pb' : ReadBuffer} (stalls : Stalls proto pb.unread)
    (step : packetStep proto pb = .ok (none, proto', pb')) :
    proto' = proto ∧ pb'.unread = pb.unread := by
  obtain ⟨_, stalled, same, _⟩ := stalls pb rfl
  rw [step] at stalled
  cases stalled
  exact ⟨rfl, same⟩

theorem formTaken (start : RtmpProto) {packetMask : Nat} {channelId : Int} {first : UInt8}
    {taken rest : Bytes} (named : BasicHeader packetMask channelId ([first] ++ taken)) {pb : ReadBuffer}
    (unread : pb.unread = taken ++ rest) :
    ∃ pb', packetStep (parsing start 2 (first.toNat / 64) (first.toNat % 64 : Nat)) pb =
        .ok (none, parsing start 3 packetMask channelId, pb') ∧ pb'.unread = rest := by
  have whole : (rtmpRbInit (first :: (taken ++ rest))).unread = [first] ++ taken ++ rest := rfl
  obtain ⟨form, here, next⟩ := stepForm start named whole
  rw [stepFirst start (unreadInit _)] at here
  have states := congrArg (fun r => r.2.1) (Except.ok.inj here)
  dsimp only at states
  rw [← states] at next
  have behind := unreadSkipAppend (rtmpRbInit (first :: (taken ++ rest))) (s := [first]) whole
  obtain ⟨⟨_, _, pb'⟩, step, rfl, rfl, same⟩ :=
    Fallible.relatedOk (stepAlike _ (behind.trans unread.symm)) next
  exact ⟨pb', step, same.symm.trans (unreadSkipAppend _ whole)⟩

theorem stageForm {start proto' : RtmpProto} {first : UInt8} {pb pb' : ReadBuffer}
    (step : packetStep (parsing start 2 (first.toNat / 64) (first.toNat % 64 : Nat)) pb =
      .ok (none, proto', pb')) :
    ∃ taken, Stage start ([first] ++ taken) proto' ∧ pb.unread = taken ++ pb'.unread := by
  have moves {packetMask : Nat} {channelId : Int} {taken rest : Bytes}
      (named : BasicHeader packetMask channelId ([first] ++ taken)) (unread : pb.unread = taken ++ rest) :
      ∃ taken, Stage start ([first] ++ taken) proto' ∧ pb.unread = taken ++ pb'.unread := by
    obtain ⟨q, step', left⟩ := formTaken start named unread
    rw [step] at step'
    cases step'
    exact ⟨taken, .basic named, by rw [unread, left]⟩
  rcases Nat.lt_or_ge (first.toNat % 64) 2 with low | form
  · rcases Nat.lt_or_ge pb.unread.length (first.toNat % 64 + 1) with short | enough
    · obtain ⟨rfl, same⟩ := stallsStay (stallsForm start _ _ low short) step
      exact ⟨[], .first first, same.symm⟩
    · rcases unread : pb.unread with _ | ⟨a, _ | ⟨b, rest⟩⟩ <;> rw [unread] at enough moves
      · simp at enough
      · simp only [List.length_cons, List.length_nil] at enough
        exact moves (.middle first a (by omega)) (List.append_nil [a]).symm
      · rcases Nat.lt_or_ge (first.toNat % 64) 1 with zero | one
        · exact moves (.middle first a (by omega)) (List.singleton_append).symm
        · exact moves (.long first a b (by omega)) (show a :: b :: rest = [a, b] ++ rest from rfl)
  · exact moves (.short first form) rfl

theorem stageStep {start proto proto' : RtmpProto} (fresh : start.state = 0) {consumed : Bytes}
    (stage : Stage start consumed proto) {pb pb' : ReadBuffer}
    (step : packetStep proto pb = .ok (none, proto', pb')) :
    ∃ taken, Stage start (consumed ++ taken) proto' ∧ pb.unread = taken ++ pb'.unread := by
  cases stage with
  | between =>
    rw [stepStart fresh] at step
    cases step
    exact ⟨[], .started, rfl⟩
  | started =>
    rcases unread : pb.unread with _ | ⟨first, rest⟩
    · have short := readEShort pb (n := 1) (by rw [unread]; exact Int.zero_lt_one)
      simp [packetStep, parsing, getR1, short] at step
    · rw [stepFirst start unread] at step
      cases step
      exact ⟨[first], .first first, by rw [unreadSkip, unread]; rfl⟩
  | first first => exact stageForm step
  | @basic packetMask channelId basic named =>
    rcases lt_or_ge channelId 64 with low | high
    · rw [stepLow start packetMask low] at step
      cases step
      exact ⟨[], by rw [List.append_nil]; exact .number named low, rfl⟩
    · simp [packetStep, parsing, getR3, check, Int.not_lt.mpr high] at step
  | @number packetMask channelId basic named low =>
    have mask := (basicHeaderNonempty named).2
    obtain ⟨slot, found⟩ : ∃ slot, rtmpProtoGetChannel (parsing start 4 packetMask channelId) = .ok slot := by
      have entered : getR4 (parsing start 4 packetMask channelId) pb = .ok (none, proto', pb') := step
      obtain ⟨slot, found, _⟩ := Fallible.bindOk.mp entered
      exact ⟨slot, found⟩
    obtain ⟨named', used⟩ := getChannelInside found
    rw [parsingChannel] at named'
    rw [parsingChannelsIn] at used
    subst named'
    rcases prefixSplit (fieldWidth packetMask) pb.unread with short | ⟨fields, rest, width, unread⟩
    · obtain ⟨rfl, same⟩ := stallsStay (stallsFields mask used short) step
      exact ⟨[], by rw [List.append_nil]; exact .number named low, same.symm⟩
    · have header := Head.mk named used width
      rcases lt_or_ge (receivedChannel packetMask (start.channelsIn slot) fields).size maxPacketSize with
        small | large
      · have kept := Stage.fields header small
        rw [stepFields mask used width unread small] at step
        cases step
        rw [basicHeaderMask named] at kept
        exact ⟨fields, kept, by rw [unreadSkipAppend pb unread, unread]⟩
      · rw [stepRefused mask used width unread large] at step
        cases step
  | @fields slot channel head header small =>
    have used := (headUsed header).1
    rcases prefixSplit (addcodeWidth channel) pb.unread with short | ⟨addcode, rest, width, unread⟩
    · obtain ⟨rfl, same⟩ := stallsStay (stallsAddcode used short _) step
      exact ⟨[], by rw [List.append_nil]; exact .fields header small, same.symm⟩
    · have kept := Stage.opened (Opened.mk header small width)
      rw [stepAddcode used width unread] at step
      cases step
      rw [headMaskAppend (headNonempty header)] at kept
      exact ⟨addcode, kept, by rw [unreadSkipAppend pb unread, unread]⟩
  | opened opened =>
    obtain ⟨rfl, same⟩ := payloadStill step
    exact ⟨[], by rw [List.append_nil]; exact .opened opened, same.symm⟩

theorem stageReplay {start proto : RtmpProto} (fresh : start.state = 0) {consumed : Bytes}
    (stage : Stage start consumed proto) {pb : ReadBuffer} {rest : Bytes}
    (unread : pb.unread = consumed ++ rest) :
    ∃ pb', pb'.unread = rest ∧
      packetLoop 7 start pb = packetLoop (7 - proto.state) proto pb' := by
  cases stage with
  | between => exact ⟨pb, unread, by rw [fresh]⟩
  | started => exact ⟨pb, unread, loopAdvance (stepStart fresh pb) 6⟩
  | first first =>
    refine ⟨pb.skip 1, unreadSkipAppend pb (s := [first]) unread, ?_⟩
    rw [loopAdvance (stepStart fresh pb), loopAdvance (stepFirst start unread)]
    rfl
  | basic named => exact ⟨_, unreadSkipAppend pb unread, loopBasicHeader fresh named unread 4⟩
  | number named low =>
    refine ⟨_, unreadSkipAppend pb unread, (loopBasicHeader fresh named unread 4).trans ?_⟩
    exact loopAdvance (stepLow _ _ low _) 3
  | fields header small =>
    obtain ⟨_, _, loop⟩ := loopHead fresh header unread small
    rw [unread, headMaskAppend (headNonempty header)] at loop
    exact ⟨_, unreadSkipAppend pb unread, loop⟩
  | opened opened =>
    obtain ⟨_, _, _, loop⟩ := loopOpened fresh opened unread
    rw [unread, headMaskAppend (openedNonempty opened)] at loop
    exact ⟨_, unreadSkipAppend pb unread, loop⟩

-- Bytes in front of which the reader can finish: a message, or a header it refuses.
def Complete (chunk : Nat) (table : ChannelTable) (s : Bytes) : Prop :=
  (∃ slot channel data, Refused table slot channel data s) ∨
  ∃ slot channel data wire rest, Message chunk table slot channel data wire ∧ s = wire ++ rest

theorem getPacketComplete {start : RtmpProto} (fresh : start.state = 0)
    (positive : 1 ≤ start.readChunkSize) (fits : start.readChunkSize + 1 < 2147483648)
    (pb : ReadBuffer) : (∃ r, rtmpPacketGetPacket start pb = .ok r) ↔
      Complete start.readChunkSize start.channelsIn pb.unread := by
  constructor
  · rintro ⟨r, read⟩
    rcases eq_or_ne pb.unread [] with empty | nonempty
    · rw [getPacketEmpty fresh empty] at read
      cases read
    rcases messageCases _ positive start.channelsIn pb.unread nonempty with
      starved | rejected | complete
    · rw [getPacketStarved fresh starved rfl] at read
      cases read
    · obtain ⟨e, fails, _⟩ := getPacketRejected fresh positive fits rejected rfl
      rw [fails] at read
      cases read
    · exact complete
  · rintro (⟨_, _, _, refused⟩ | ⟨_, _, _, _, _, message, unread⟩)
    · obtain ⟨_, _, read⟩ := getPacketRefused fresh refused rfl
      exact ⟨_, read⟩
    · obtain ⟨_, _, _, _, _, read⟩ := getPacketMessage fresh fits message unread
      exact ⟨_, read⟩

theorem stageReturns {start proto : RtmpProto} (fresh : start.state = 0)
    (positive : 1 ≤ start.readChunkSize) (fits : start.readChunkSize + 1 < 2147483648)
    {consumed : Bytes} (stage : Stage start consumed proto) (pb : ReadBuffer) :
    Returns proto pb ↔ Complete start.readChunkSize start.channelsIn (consumed ++ pb.unread) := by
  obtain ⟨pb', left, replay⟩ := stageReplay fresh stage (unreadInit (consumed ++ pb.unread))
  have whole := getPacketComplete fresh positive fits (rtmpRbInit (consumed ++ pb.unread))
  rw [unreadInit, rtmpPacketGetPacket, replay] at whole
  rw [← whole, returnsLoop (stageState fresh stage)]
  constructor
  · rintro ⟨r, loop⟩
    exact loopAlike _ left.symm loop
  · rintro ⟨r, loop⟩
    exact loopAlike _ left loop

theorem readerReturns {table : MethodTable} (leaves : LeavesReader table) {start proto : RtmpProto}
    (reached : Reached table start) {consumed : Bytes} (stage : Stage start consumed proto)
    (pb : ReadBuffer) :
    Returns proto pb ↔ Complete start.readChunkSize start.channelsIn (consumed ++ pb.unread) := by
  have settled := reachedSettled leaves reached
  have chunk := settled.readChunkSize
  exact stageReturns settled.state (by omega) (by omega) stage pb

theorem readerReturnsPing : ∃ proto, Reached bareTable proto ∧
    Returns (parsing proto 2 0 (2 : Nat)) (rtmpRbInit (pingWire.drop 1)) := by
  obtain ⟨proto, reached, _, channels⟩ := reachedOpened
  have used := channelTwoUsed channels
  have stage : Stage proto [2] (parsing proto 2 0 (2 : Nat)) := .first 2
  refine ⟨proto, reached, (readerReturns barePassive.kept reached stage _).mpr (.inr ?_)⟩
  exact ⟨2, pingChannel, [], pingWire, [], pingMessage used, by rw [unreadInit]; rfl⟩

theorem readerHangs : ∃ proto, Reached bareTable proto ∧ proto.pkgSt = 3 ∧ proto.state = 0 ∧
    (proto.channelsIn 2).used = true ∧ ¬ Returns proto (rtmpRbInit [2]) := by
  obtain ⟨proto, reached, phase, channels⟩ := reachedOpened
  have settled := reachedSettled barePassive.kept reached
  have used := channelTwoUsed channels
  refine ⟨proto, reached, phase, settled.state, used, fun returns => ?_⟩
  have named : BasicHeader 0 (2 : Fin 64).val [2] := .short 2 (by decide)
  have starved : Starved proto.channelsIn ([2] ++ []) := .fields [] named used (by decide)
  obtain ⟨r, loop⟩ := (returnsLoop (by rw [settled.state]; decide) _).mp returns
  rw [settled.state] at loop
  have hangs := getPacketStarved settled.state starved (unreadInit [2])
  rw [rtmpPacketGetPacket, loop] at hangs
  cases hangs

end Rushkit
