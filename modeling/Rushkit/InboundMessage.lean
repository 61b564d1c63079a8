import Rushkit.Rounds

/-! One complete message as it arrives between two packets: when it is delivered with
the announced payload, and on which channels a first message is received at all. -/
namespace Rushkit
open Interleaving ReadBuffer

-- The packet that is delivered: the reader is past the message and no other entry moved.
def DeliversMessage (proto : RtmpProto) (pb : ReadBuffer) (slot : Fin 64) (channel : Channel) (data : Bytes)
    (consumed : Nat) : Prop :=
  ∃ proto', rtmpPacketGetPacket proto pb = .ok (⟨slot.val, channel, data⟩, proto',
      pb.skip consumed) ∧ proto'.channelsIn slot = channel ∧
    ∀ other, other ≠ slot → proto'.channelsIn other = proto.channelsIn other

theorem messageDelivers {proto : RtmpProto} (fresh : proto.state = 0)
    (fits : proto.readChunkSize + 1 < 2147483648) {slot : Fin 64} {channel : Channel}
    {data wire rest : Bytes}
    (message : Message proto.readChunkSize proto.channelsIn slot channel data wire)
    {pb : ReadBuffer} (unread : pb.unread = wire ++ rest) :
    DeliversMessage proto pb slot channel data wire.length := by
  obtain ⟨_, _, _, _, _, read⟩ := getPacketMessage fresh fits message unread
  refine ⟨_, read, Function.update_self _ _ _, fun other apart => ?_⟩
  exact Function.update_of_ne apart _ _

section Untyped
variable {proto : RtmpProto} (fresh : proto.state = 0) (positive : 1 ≤ proto.readChunkSize)
  (fits : proto.readChunkSize + 1 < 2147483648) {slot : Fin 64} {channel : Channel}
  {head : Bytes} (opened : Opened proto.channelsIn slot channel head)
  (zero : ¬ 0 < channel.dataType)
include fresh positive fits opened zero

theorem untypedDelivers {data : Bytes} {consumed : Nat} {pb : ReadBuffer} {rest : Bytes}
    (unread : pb.unread = head ++ rest) (delivers : DeliversMessage proto pb slot channel data consumed) :
    data.length = 4 := by
  obtain ⟨proto', read, _⟩ := delivers
  rcases prefixSplit 4 rest with short | ⟨four, rest, size, rfl⟩
  · rw [getPacketStarved fresh (.untyped rest opened zero short) unread] at read
    contradiction
  rcases lt_or_ge channel.size 4 with cramped | room
  · have rejected : Rejected proto.readChunkSize proto.channelsIn (head ++ (four ++ rest)) :=
      .cramped _ opened zero (by simp only [List.length_append, size, Nat.le_add_right]) cramped
    obtain ⟨e, fails, _⟩ := getPacketRejected fresh positive fits rejected unread
    rw [fails] at read
    contradiction
  · rw [← List.append_assoc] at unread
    obtain ⟨_, _, _, _, _, read'⟩ :=
      getPacketMessage fresh fits (.mk opened (.untyped zero size room)) unread
    rw [read] at read'
    have same : data = four := congrArg (fun r => r.1.data) (Except.ok.inj read')
    rw [same, size]

end Untyped

theorem layoutShort {c : Nat} {data seps wire : Bytes} (layout : Layout c data seps wire)
    (short : data.length ≤ c) : wire = data := by
  cases layout with
  | last => rfl
  | more sep full nonempty rest =>
    have some := List.length_pos_of_ne_nil nonempty
    rw [List.length_append] at short
    omega

theorem newBasicHeader (slot : Fin 64) (form : 2 ≤ slot.val) :
    BasicHeader channelNew slot.val [UInt8.ofNat slot.val] := by
  have inside := slot.isLt
  have first : (UInt8.ofNat slot.val).toNat = slot.val := UInt8.toNat_ofNat_of_lt' (Nat.lt_trans inside (by decide))
  have header := BasicHeader.short (UInt8.ofNat slot.val) (by omega)
  have mask : slot.val / 64 = channelNew := Nat.div_eq_of_lt inside
  rw [first, Nat.mod_eq_of_lt inside, mask] at header
  exact header

theorem newHead {table : ChannelTable} {slot : Fin 64} (form : 2 ≤ slot.val)
    (used : (table slot).used = true) (fields : Bytes) (width : fields.length = 11) :
    Head table slot (receivedChannel channelNew (table slot) fields) (UInt8.ofNat slot.val :: fields) :=
  .mk (newBasicHeader slot form) used width

theorem deliveredLength {table : MethodTable} (leaves : LeavesReader table) {proto : RtmpProto}
    (reached : Reached table proto) {slot : Fin 64} {channel : Channel}
    {head data seps body rest : Bytes} (header : Head proto.channelsIn slot channel head)
    (small : channel.size < 32768)
    (timer : channel.timer ≠ 0xffffff) (size : (data.length : Int) = channel.size)
    (layout : Layout proto.readChunkSize data seps body) {pb : ReadBuffer}
    (unread : pb.unread = head ++ body ++ rest) :
    DeliversMessage proto pb slot channel data (head ++ body).length ↔
      0 < channel.dataType ∨ channel.size = 4 := by
  have settled := reachedSettled leaves reached
  have chunk := settled.readChunkSize
  have plain : addcodeWidth channel = 0 := if_neg timer
  have opened : Opened proto.channelsIn slot channel (head ++ []) := .mk header small plain.symm
  rw [List.append_nil] at opened
  constructor
  · intro delivers
    refine or_iff_not_imp_left.mpr fun zero => ?_
    rw [List.append_assoc] at unread
    have four := untypedDelivers settled.state (by omega) (by omega) opened zero unread delivers
    omega
  · intro condition
    by_cases typed : 0 < channel.dataType
    · exact messageDelivers settled.state (by omega)
        (.mk opened (.chunked typed (by omega) layout)) unread
    · have four : channel.size = 4 := condition.resolve_left typed
      have whole := layoutShort layout (by omega)
      subst whole
      exact messageDelivers settled.state (by omega)
        (.mk opened (.untyped typed (by omega) (by omega))) unread

theorem firstHead {proto : RtmpProto} (channels : proto.channelsIn = rtmpProtoInit.channelsIn)
    (fields : Bytes) (width : fields.length = 11) :
    Head proto.channelsIn 2 (receivedChannel channelNew initChannel fields) (2 :: fields) := by
  have entry : proto.channelsIn 2 = initChannel := by
    rw [channels, channelsInInit]
    rfl
  have header := newHead (Nat.le_refl 2) (channelTwoUsed channels) fields width
  rw [entry] at header
  exact header

theorem deliveredLengthPing : ∃ proto, Reached bareTable proto ∧
    DeliversMessage proto (rtmpRbInit [2, 0, 0, 0, 0, 0, 1, 4, 0, 0, 0, 0, 9]) 2 ⟨true, 0, 1, 4, 0⟩ [9] 13 := by
  obtain ⟨proto, reached, _, channels⟩ := reachedOpened
  have settled := reachedSettled barePassive.kept reached
  have chunk := settled.readChunkSize
  have header : Head proto.channelsIn 2 ⟨true, 0, 1, 4, 0⟩ [2, 0, 0, 0, 0, 0, 1, 4, 0, 0, 0, 0] :=
    firstHead channels [0, 0, 0, 0, 0, 1, 4, 0, 0, 0, 0] rfl
  have layout : Layout proto.readChunkSize ([9] : Bytes) [] [9] := .last [9] (by rw [chunk]; decide)
  have unread : (rtmpRbInit [2, 0, 0, 0, 0, 0, 1, 4, 0, 0, 0, 0, 9]).unread =
      [2, 0, 0, 0, 0, 0, 1, 4, 0, 0, 0, 0] ++ [9] ++ [] := unreadInit _
  exact ⟨proto, reached, (deliveredLength barePassive.kept reached header (by decide) (by decide) rfl
    layout unread).mpr (.inl (by decide))⟩

theorem untypedMessageLost : ∃ proto, Reached bareTable proto ∧ proto.pkgSt = 3 ∧
    Head proto.channelsIn 2 ⟨true, 0, 2, 0, 0⟩ [2, 0, 0, 0, 0, 0, 2, 0, 0, 0, 0, 0] ∧
    ¬ DeliversMessage proto (rtmpRbInit [2, 0, 0, 0, 0, 0, 2, 0, 0, 0, 0, 0, 7, 7]) 2 ⟨true, 0, 2, 0, 0⟩
      [7, 7] 14 := by
  obtain ⟨proto, reached, phase, channels⟩ := reachedOpened
  have settled := reachedSettled barePassive.kept reached
  have chunk := settled.readChunkSize
  have header : Head proto.channelsIn 2 ⟨true, 0, 2, 0, 0⟩ [2, 0, 0, 0, 0, 0, 2, 0, 0, 0, 0, 0] :=
    firstHead channels [0, 0, 0, 0, 0, 2, 0, 0, 0, 0, 0] rfl
  have opened : Opened proto.channelsIn 2 ⟨true, 0, 2, 0, 0⟩ ([2, 0, 0, 0, 0, 0, 2, 0, 0, 0, 0, 0] ++ []) :=
    .mk header (by decide) rfl
  have unread : (rtmpRbInit [2, 0, 0, 0, 0, 0, 2, 0, 0, 0, 0, 0, 7, 7]).unread =
      [2, 0, 0, 0, 0, 0, 2, 0, 0, 0, 0, 0] ++ [] ++ [7, 7] := unreadInit _
  refine ⟨proto, reached, phase, header, fun delivers => ?_⟩
  have four := untypedDelivers settled.state (by omega) (by omega) opened (by decide) unread delivers
  contradiction

-- What the fields of a type 0 header announce, delivered and remembered.
def OpensChannel (proto : RtmpProto) (pb : ReadBuffer) (slot : Fin 64) (fields data : Bytes)
    (consumed : Nat) : Prop :=
  ∃ channel, DeliversMessage proto pb slot channel data consumed ∧ channel.timer = mediumInt fields ∧
    channel.size = mediumInt (fields.drop 3) ∧ channel.dataType = (fields.getD 6 0).toNat

theorem unopenedFails {proto : RtmpProto} (settled : Settled proto) {slot : Fin 64}
    (form : 4 ≤ slot.val) {pb : ReadBuffer} {rest : Bytes}
    (unread : pb.unread = UInt8.ofNat slot.val :: rest) :
    ∃ e, rtmpPacketGetPacket proto pb = .error e := by
  have chunk := settled.readChunkSize
  have unusable : Unusable proto.channelsIn slot.val := by
    intro other same
    have entry : other = slot := Fin.ext (by omega)
    subst entry
    rw [← Bool.not_eq_true, settled.used]
    omega
  have rejected : Rejected proto.readChunkSize proto.channelsIn ([UInt8.ofNat slot.val] ++ rest) :=
    .channel rest (newBasicHeader slot (by omega)) unusable
  obtain ⟨e, fails, _⟩ := getPacketRejected settled.state (by omega) (by omega) rejected unread
  exact ⟨e, fails⟩

theorem newChannelReceived {table : MethodTable} (leaves : LeavesReader table) {proto : RtmpProto}
    (reached : Reached table proto) {slot : Fin 64} (form : 2 ≤ slot.val)
    {fields data seps body rest : Bytes} (width : fields.length = 11)
    (timer : mediumInt fields ≠ 0xffffff) (typed : 1 ≤ (fields.getD 6 0).toNat)
    (size : mediumInt (fields.drop 3) = data.length) (small : data.length < 32768)
    (layout : Layout proto.readChunkSize data seps body) {pb : ReadBuffer}
    (unread : pb.unread = UInt8.ofNat slot.val :: fields ++ body ++ rest) :
    OpensChannel proto pb slot fields data (UInt8.ofNat slot.val :: fields ++ body).length ↔
      slot.val = 2 ∨ slot.val = 3 := by
  have settled := reachedSettled leaves reached
  have chunk := settled.readChunkSize
  constructor
  · rintro ⟨channel, ⟨proto', read, _⟩, _⟩
    rcases Nat.lt_or_ge slot.val 4 with low | high
    · omega
    · obtain ⟨e, fails⟩ := unopenedFails settled high unread
      rw [fails] at read
      cases read
  · intro low
    have used : (proto.channelsIn slot).used = true := (settled.used slot).mpr (by omega)
    have header := newHead form used fields width
    have record : receivedChannel channelNew (proto.channelsIn slot) fields =
        { proto.channelsIn slot with
          timer := mediumInt fields
          size := mediumInt (fields.drop 3)
          dataType := (fields.getD 6 0).toNat
          streamId := wireInt (fields.drop 7) } := if_pos rfl
    rw [record] at header
    have opened : Opened proto.channelsIn slot _ (UInt8.ofNat slot.val :: fields ++ []) :=
      .mk header (lt_of_eq_of_lt size (Int.ofNat_lt.mpr small)) (if_neg timer).symm
    rw [List.append_nil] at opened
    refine ⟨_, messageDelivers settled.state (by omega)
      (.mk opened (.chunked ?_ ?_ layout)) unread, rfl, rfl, rfl⟩
    · exact Int.natCast_pos.mpr typed
    · exact (congrArg Int.toNat size).symm

theorem newChannelThree : ∃ proto, Reached bareTable proto ∧
    OpensChannel proto (rtmpRbInit [3, 0, 0, 5, 0, 0, 1, 8, 0, 0, 0, 0, 9]) 3
      [0, 0, 5, 0, 0, 1, 8, 0, 0, 0, 0] [9] 13 := by
  obtain ⟨proto, reached, _, channels⟩ := reachedOpened
  have settled := reachedSettled barePassive.kept reached
  have chunk := settled.readChunkSize
  have layout : Layout proto.readChunkSize ([9] : Bytes) [] [9] := .last [9] (by rw [chunk]; decide)
  have unread : (rtmpRbInit [3, 0, 0, 5, 0, 0, 1, 8, 0, 0, 0, 0, 9]).unread =
      UInt8.ofNat (3 : Fin 64).val :: [0, 0, 5, 0, 0, 1, 8, 0, 0, 0, 0] ++ [9] ++ [] := unreadInit _
  exact ⟨proto, reached, (newChannelReceived barePassive.kept reached (by decide) rfl (by decide)
    (by decide) rfl (by decide) layout unread).mpr (.inr rfl)⟩

theorem newChannelFourFails : ∃ proto, Reached bareTable proto ∧ proto.pkgSt = 3 ∧
    ¬ OpensChannel proto (rtmpRbInit [4, 0, 0, 5, 0, 0, 1, 8, 0, 0, 0, 0, 9]) 4
      [0, 0, 5, 0, 0, 1, 8, 0, 0, 0, 0] [9] 13 := by
  obtain ⟨proto, reached, phase, _⟩ := reachedOpened
  refine ⟨proto, reached, phase, ?_⟩
  rintro ⟨channel, ⟨proto', read, _⟩, _⟩
  have unread : (rtmpRbInit [4, 0, 0, 5, 0, 0, 1, 8, 0, 0, 0, 0, 9]).unread =
      UInt8.ofNat (4 : Fin 64).val :: [0, 0, 5, 0, 0, 1, 8, 0, 0, 0, 0, 9] := unreadInit _
  obtain ⟨e, fails⟩ := unopenedFails (reachedSettled barePassive.kept reached) (Nat.le_refl 4) unread
  rw [fails] at read
  cases read

end Rushkit
