import Rushkit.Accounts
import Rushkit.FeedData

/-! What follows an announcement that is too large. The reader stores the size before it refuses the
packet, and a later header that leaves the size out is refused for it again. -/
namespace Rushkit
open ReadBuffer

structure Blocked (slot : Fin 64) (proto : RtmpProto) : Prop where
  between : Between proto
  used : (proto.channelsIn slot).used = true
  large : maxPacketSize ≤ (proto.channelsIn slot).size

-- A block whose first header names the channel and states no size; `behind` is what comes after.
inductive Sizeless (slot : Fin 64) : Bytes → Bytes → Prop where
  | mk {packetMask : Nat} {basic fields : Bytes} (behind : Bytes) (named : BasicHeader packetMask slot.val basic)
      (omits : channelSameSource < packetMask) (width : fields.length = fieldWidth packetMask) :
      Sizeless slot (basic ++ fields ++ behind) behind

-- All that the application gets of a block: what is behind the header, as one invalid packet.
structure Swallowed (slot : Fin 64) (behind : Bytes) (pac : Packet) : Prop where
  channelId : pac.channelId = slot.val
  invalid : pac.channel.dataType = pacInvalid
  data : pac.data = behind

theorem sizeOmitted {packetMask : Nat} (omits : channelSameSource < packetMask) (pchannel : Channel)
    (fields : Bytes) : (receivedChannel packetMask pchannel fields).size = pchannel.size := by
  unfold receivedChannel
  rw [if_neg (by unfold channelSameSource at omits; unfold channelNew; omega), if_neg (Nat.ne_of_gt omits)]
  split <;> rfl

theorem sizelessRefused {slot : Fin 64} {proto : RtmpProto} (blocked : Blocked slot proto) {data behind : Bytes}
    (sizeless : Sizeless slot data behind) : ∃ channel, Refused proto.channelsIn slot channel behind data := by
  cases sizeless with
  | @mk packetMask basic fields behind named omits width =>
    have size := sizeOmitted omits (proto.channelsIn slot) fields
    exact ⟨_, .mk behind (.mk named blocked.used width) (size ▸ blocked.large)⟩

-- The way out: a message is read on the channel only when its header states a size.
theorem statedSize {slot : Fin 64} {proto : RtmpProto} (blocked : Blocked slot proto) {channel : Channel}
    {data wire : Bytes} (message : Message proto.readChunkSize proto.channelsIn slot channel data wire) :
    headMask wire ≤ channelSameSource := by
  by_contra omits
  cases message with
  | mk opened payload =>
    cases opened with
    | mk header small width =>
      cases header with
      | mk named used fields =>
        simp only [List.append_assoc, basicHeaderMask named] at omits
        rw [sizeOmitted (Nat.lt_of_not_le omits)] at small
        exact absurd blocked.large (Int.not_le.mpr small)

-- The table's packet callback returns from an invalid packet and leaves the reader alone.
def Tolerates (table : MethodTable) : Prop :=
  ∀ (proto : RtmpProto) (pac : Packet), pac.channel.dataType = pacInvalid →
    ∃ proto', deliver table proto pac = .ok proto' ∧ ReaderKept proto proto'

section Blocks
variable {table : MethodTable} (tolerates : Tolerates table) {proto : RtmpProto} (between : Between proto)
  {slot : Fin 64} {channel : Channel} {data behind : Bytes}
  (refused : Refused proto.channelsIn slot channel behind data)
include tolerates between refused

theorem refusedPacket {pb : ReadBuffer} (unread : pb.unread = data) :
    ∃ proto' pac, feedPacket table proto pb = .ok (proto', pac, pb.skip data.length) ∧
      Blocked slot proto' ∧ Swallowed slot behind pac := by
  obtain ⟨fields, record, got⟩ := getPacketRefused between.state refused unread
  obtain ⟨returned, called, kept⟩ := tolerates (parsingOn proto slot channel 4 (headMask data))
    ⟨slot.val, { channel with dataType := pacInvalid }, behind⟩ rfl
  refine ⟨rtmpPacketReset returned, ⟨slot.val, { channel with dataType := pacInvalid }, behind⟩, ?_, ?_,
    ⟨rfl, rfl, rfl⟩⟩
  · simp only [feedPacket, got, Fallible.okBind, called]
  have chunk : returned.readChunkSize = proto.readChunkSize := kept.readChunkSize
  have stored : (rtmpPacketReset returned).channelsIn slot = channel := by
    show returned.channelsIn slot = channel
    rw [kept.channelsIn]
    exact setChannelInSlot proto slot channel
  refine ⟨⟨kept.pkgSt.trans between.pkgSt, rfl, kept.lastData.trans between.lastData,
    (congrArg List.length kept.readBuffer).trans between.readBuffer, chunk ▸ between.positive,
    chunk ▸ between.fits⟩, ?_, ?_⟩
  · rw [stored, record, receivedUsed]
    cases refused with
    | mk _ header _ =>
      cases header with
      | mk named used width => exact used
  · rw [stored]
    cases refused with
    | mk _ header large => exact large

theorem refusedReceived (fits : data.length ≤ bufferSz) :
    ∃ proto' pac, receiveData table proto data = .ok (proto', [pac]) ∧ Blocked slot proto' ∧
      Swallowed slot behind pac := by
  have some : data ≠ [] := by
    cases refused with
    | mk _ header large =>
      exact List.append_ne_nil_of_left_ne_nil (List.ne_nil_of_length_pos (headNonempty header)) _
  have ready := betweenFed between fits
  obtain ⟨proto', pac, step, blocked, swallowed⟩ := refusedPacket tolerates ready refused (unreadInit data)
  have empty : ((rtmpRbInit data).skip data.length).unread = [] := by
    rw [unreadSkip, unreadInit, List.drop_length]
  refine ⟨proto', pac, ?_, blocked, swallowed⟩
  rw [receiveDataFed table between.lastData between.readBuffer (List.length_pos_of_ne_nil some) fits,
    feedLoopPacket ready (by rw [unreadInit]; exact some) rfl, step, Fallible.okBind, feedLoopEnd empty]
  simp only [Fallible.okBind]
  rw [saveNothing proto' (by rfl), Fallible.okBind]

end Blocks

section Runs
variable {program : Int → MethodTable}
  (tolerates : ∀ now, Tolerates (rtmpProtoMethodTableInit (program now) now)) {slot : Fin 64}
include tolerates

theorem blockedRun {blocks : List (Int × Bytes)} {behinds : List Bytes}
    (each : List.Forall₂ (fun block behind => Sizeless slot block.2 behind) blocks behinds)
    (fits : ∀ block ∈ blocks, block.2.length ≤ bufferSz) {proto : RtmpProto} (blocked : Blocked slot proto) :
    ∃ last pacs, receiveTimed program proto blocks = .ok (last, pacs) ∧ Blocked slot last ∧
      List.Forall₂ (Swallowed slot) behinds pacs := by
  induction each generalizing proto with
  | nil => exact ⟨proto, [], rfl, blocked, .nil⟩
  | @cons block behind blocks behinds sizeless later ih =>
    obtain ⟨now, data⟩ := block
    obtain ⟨mine, others⟩ := List.forall_mem_cons.mp fits
    obtain ⟨channel, refused⟩ := sizelessRefused blocked sizeless
    obtain ⟨mid, pac, received, blocked', swallowed⟩ :=
      refusedReceived (tolerates now) blocked.between refused mine
    obtain ⟨last, pacs, run, still, rest⟩ := ih others blocked'
    refine ⟨last, pac :: pacs, ?_, still, .cons swallowed rest⟩
    rw [receiveTimed, received, Fallible.okBind]
    dsimp only
    rw [run]
    rfl

theorem lockout {proto : RtmpProto} (between : Between proto) {now : Int} {data behind : Bytes} {channel : Channel}
    (refused : Refused proto.channelsIn slot channel behind data) {blocks : List (Int × Bytes)}
    {behinds : List Bytes}
    (each : List.Forall₂ (fun block behind => Sizeless slot block.2 behind) blocks behinds)
    (fits : ∀ block ∈ (now, data) :: blocks, block.2.length ≤ bufferSz) :
    ∃ last pacs, receiveTimed program proto ((now, data) :: blocks) = .ok (last, pacs) ∧
      List.Forall₂ (Swallowed slot) (behind :: behinds) pacs ∧
      ∀ channel data wire, Message last.readChunkSize last.channelsIn slot channel data wire →
        headMask wire ≤ channelSameSource := by
  obtain ⟨mine, others⟩ := List.forall_mem_cons.mp fits
  obtain ⟨mid, pac, received, blocked, swallowed⟩ := refusedReceived (tolerates now) between refused mine
  obtain ⟨last, pacs, run, still, rest⟩ := blockedRun tolerates each others blocked
  refine ⟨last, pac :: pacs, ?_, .cons swallowed rest, fun _ _ _ message => statedSize still message⟩
  rw [receiveTimed, received, Fallible.okBind]
  dsimp only
  rw [run]
  rfl

end Runs

theorem bareTolerates (now : Int) : Tolerates (rtmpProtoMethodTableInit bareTable now) := by
  rintro proto ⟨channelId, channel, data⟩ invalid
  refine ⟨proto, ?_, ⟨rfl, rfl, rfl, rfl, rfl, rfl⟩⟩
  have type : channel.dataType = pacInvalid := invalid
  show defaultOnPacket _ proto _ = _
  rw [defaultOnPacket, if_neg (by rw [type]; decide), if_pos type]
  rfl

-- The header announces 32768 bytes; the one of the second block gives nothing but the channel.
theorem swallowingRefused : ∃ channel, Refused openProto.channelsIn 2 channel [] swallowing := by
  have used : (openProto.channelsIn 2).used = true := by decide
  have header := newHead (Nat.le_refl 2) used [0, 0, 0, 0, 128, 0, 4, 0, 0, 0, 0] rfl
  have refused := Refused.mk [] header (Int.le_refl 32768)
  have first : UInt8.ofNat (2 : Fin 64).val = 2 := by decide
  rw [List.append_nil, first] at refused
  exact ⟨_, refused⟩

theorem bareHeader : Sizeless 2 [0xc2, 1, 2] [1, 2] := by
  have named : BasicHeader 3 (2 : Fin 64).val [0xc2] := .short 0xc2 (by decide)
  have sizeless := Sizeless.mk [1, 2] named (by decide) (List.length_nil (α := UInt8))
  exact sizeless

theorem lockoutPing : ∃ last pacs, receiveTimed (fun _ => bareTable) openProto
      [(5, swallowing), (6, [0xc2, 1, 2])] = .ok (last, pacs) ∧
    List.Forall₂ (Swallowed 2) [[], [1, 2]] pacs ∧
    ∀ channel data wire, Message last.readChunkSize last.channelsIn 2 channel data wire →
      headMask wire ≤ channelSameSource := by
  obtain ⟨channel, refused⟩ := swallowingRefused
  have each : List.Forall₂ (fun (block : Int × Bytes) behind => Sizeless 2 block.2 behind)
      [(6, [0xc2, 1, 2])] [[1, 2]] := .cons bareHeader .nil
  refine lockout bareTolerates openListening.between refused each fun block member => ?_
  rcases List.mem_pair.mp member with rfl | rfl <;> decide

end Rushkit
