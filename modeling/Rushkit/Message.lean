import Rushkit.PacketRead
import Rushkit.PacketWrite

/-! The wire grammar of one message, independent of the reader: which bytes are a
message on a channel table, and the ways in which bytes fail to be one. -/
namespace Rushkit
open Interleaving

-- Header type and channel id. The long form holds a signed 16-bit number.
inductive BasicHeader : Nat → Int → Bytes → Prop where
  | short (first : UInt8) (form : 2 ≤ first.toNat % 64) :
      BasicHeader (first.toNat / 64) ((first.toNat % 64 : Nat) : Int) [first]
  | middle (first b : UInt8) (form : first.toNat % 64 = 0) :
      BasicHeader (first.toNat / 64) (64 + b.toNat) [first, b]
  | long (first a b : UInt8) (form : first.toNat % 64 = 1) :
      BasicHeader (first.toNat / 64) (64 + wireShort [a, b]) [first, a, b]

-- The channel record after the fields of a header have been read into it.
def receivedChannel (packetMask : Nat) (pchannel : Channel) (fields : Bytes) : Channel :=
  if packetMask = channelNew then
    { pchannel with
      timer := mediumInt fields
      size := mediumInt (fields.drop 3)
      dataType := (fields.getD 6 0).toNat
      streamId := wireInt (fields.drop 7) }
  else if packetMask = channelSameSource then
    { pchannel with
      timer := mediumInt fields
      size := mediumInt (fields.drop 3)
      dataType := (fields.getD 6 0).toNat }
  else if packetMask = channelTimerChange then { pchannel with timer := mediumInt fields }
  else pchannel

def addcodeWidth (channel : Channel) : Nat := if channel.timer = 0xffffff then 4 else 0

inductive Head (table : ChannelTable) : Fin 64 → Channel → Bytes → Prop where
  | mk {packetMask : Nat} {slot : Fin 64} {basic fields : Bytes}
      (named : BasicHeader packetMask slot.val basic) (used : (table slot).used = true)
      (width : fields.length = fieldWidth packetMask) :
      Head table slot (receivedChannel packetMask (table slot) fields) (basic ++ fields)

inductive Opened (table : ChannelTable) : Fin 64 → Channel → Bytes → Prop where
  | mk {slot : Fin 64} {channel : Channel} {head addcode : Bytes} (header : Head table slot channel head)
      (small : channel.size < maxPacketSize) (width : addcode.length = addcodeWidth channel) :
      Opened table slot channel (head ++ addcode)

-- Payload and its bytes on the wire. Type 0 always takes four bytes, whatever the size.
inductive Payload (chunk : Nat) (channel : Channel) : Bytes → Bytes → Prop where
  | chunked {data seps body : Bytes} (typed : 0 < channel.dataType)
      (size : data.length = channel.size.toNat) (layout : Layout chunk data seps body) :
      Payload chunk channel data body
  | untyped {data : Bytes} (zero : ¬ 0 < channel.dataType) (four : data.length = 4)
      (room : 4 ≤ channel.size) : Payload chunk channel data data

inductive Message (chunk : Nat) (table : ChannelTable) :
    Fin 64 → Channel → Bytes → Bytes → Prop where
  | mk {slot : Fin 64} {channel : Channel} {head data body : Bytes}
      (opened : Opened table slot channel head) (payload : Payload chunk channel data body) :
      Message chunk table slot channel data (head ++ body)

-- Bytes that end where the reader asks for more before it goes on.
inductive Starved (table : ChannelTable) : Bytes → Prop where
  | middle (first : UInt8) (form : first.toNat % 64 = 0) : Starved table [first]
  | long (first : UInt8) (rest : Bytes) (form : first.toNat % 64 = 1) (short : rest.length < 2) :
      Starved table (first :: rest)
  | fields {packetMask : Nat} {slot : Fin 64} {basic : Bytes} (rest : Bytes)
      (named : BasicHeader packetMask slot.val basic) (used : (table slot).used = true)
      (short : rest.length < fieldWidth packetMask) : Starved table (basic ++ rest)
  | addcode {slot : Fin 64} {channel : Channel} {head : Bytes} (rest : Bytes)
      (header : Head table slot channel head) (small : channel.size < maxPacketSize)
      (short : rest.length < addcodeWidth channel) : Starved table (head ++ rest)
  | untyped {slot : Fin 64} {channel : Channel} {head : Bytes} (rest : Bytes)
      (opened : Opened table slot channel head) (zero : ¬ 0 < channel.dataType)
      (short : rest.length < 4) : Starved table (head ++ rest)

-- A header announcing too much, delivered as invalid with everything behind it.
inductive Refused (table : ChannelTable) : Fin 64 → Channel → Bytes → Bytes → Prop where
  | mk {slot : Fin 64} {channel : Channel} {head : Bytes} (rest : Bytes)
      (header : Head table slot channel head) (large : maxPacketSize ≤ channel.size) :
      Refused table slot channel rest (head ++ rest)

-- A channel the table does not have in use: outside it, or not opened.
def Unusable (table : ChannelTable) (channelId : Int) : Prop :=
  ∀ slot : Fin 64, channelId = slot.val → (table slot).used = false

-- Bytes on which an assertion of the reader fails, or its table is left.
inductive Rejected (chunk : Nat) (table : ChannelTable) : Bytes → Prop where
  | channel {packetMask : Nat} {channelId : Int} {basic : Bytes} (rest : Bytes)
      (named : BasicHeader packetMask channelId basic) (unusable : Unusable table channelId) :
      Rejected chunk table (basic ++ rest)
  | truncated {slot : Fin 64} {channel : Channel} {head : Bytes} (rest : Bytes)
      (opened : Opened table slot channel head) (typed : 0 < channel.dataType)
      (short : rest.length < wireLength chunk channel.size.toNat) :
      Rejected chunk table (head ++ rest)
  | cramped {slot : Fin 64} {channel : Channel} {head : Bytes} (rest : Bytes)
      (opened : Opened table slot channel head) (zero : ¬ 0 < channel.dataType)
      (arrived : 4 ≤ rest.length) (room : channel.size < 4) : Rejected chunk table (head ++ rest)

theorem basicHeaderSplit (table : ChannelTable) (s : Bytes) (nonempty : s ≠ []) :
    Starved table s ∨
    ∃ packetMask channelId basic rest, BasicHeader packetMask channelId basic ∧ s = basic ++ rest := by
  cases s with
  | nil => contradiction
  | cons first s =>
    rcases Nat.lt_or_ge (first.toNat % 64) 2 with low | form
    · rcases Nat.lt_or_ge (first.toNat % 64) 1 with none | one
      · have form : first.toNat % 64 = 0 := by omega
        cases s with
        | nil => exact .inl (.middle first form)
        | cons b rest => exact .inr ⟨_, _, _, rest, .middle first b form, rfl⟩
      · have form : first.toNat % 64 = 1 := by omega
        match s with
        | [] => exact .inl (.long first [] form Nat.two_pos)
        | [a] => exact .inl (.long first [a] form (Nat.lt_succ_self 1))
        | a :: b :: rest => exact .inr ⟨_, _, _, rest, .long first a b form, rfl⟩
    · exact .inr ⟨_, _, _, s, .short first form, rfl⟩

theorem usableSplit (table : ChannelTable) (channelId : Int) :
    Unusable table channelId ∨ ∃ slot : Fin 64, channelId = slot.val ∧ (table slot).used = true := by
  rcases Classical.em (∃ slot : Fin 64, channelId = slot.val ∧ (table slot).used = true) with h | h
  · exact .inr h
  · refine .inl fun slot named => ?_
    cases used : (table slot).used with
    | false => rfl
    | true => exact absurd ⟨slot, named, used⟩ h

theorem prefixSplit (n : Nat) (s : Bytes) :
    s.length < n ∨ ∃ front rest, front.length = n ∧ s = front ++ rest := by
  rcases Nat.lt_or_ge s.length n with short | enough
  · exact .inl short
  · exact .inr ⟨s.take n, s.drop n, by rw [List.length_take]; omega, (List.take_append_drop n s).symm⟩

theorem messageCases (chunk : Nat) (positive : 1 ≤ chunk) (table : ChannelTable) (s : Bytes)
    (nonempty : s ≠ []) :
    Starved table s ∨ Rejected chunk table s ∨
    (∃ slot channel data, Refused table slot channel data s) ∨
    ∃ slot channel data wire rest, Message chunk table slot channel data wire ∧ s = wire ++ rest := by
  rcases basicHeaderSplit table s nonempty with starved | ⟨packetMask, id, basic, s, named, rfl⟩
  · exact .inl starved
  rcases usableSplit table id with unusable | ⟨slot, rfl, used⟩
  · exact .inr (.inl (.channel s named unusable))
  rcases prefixSplit (fieldWidth packetMask) s with short | ⟨fields, s, width, rfl⟩
  · exact .inl (.fields s named used short)
  have header := Head.mk named used width
  rw [← List.append_assoc]
  generalize receivedChannel packetMask (table slot) fields = channel at header
  generalize basic ++ fields = head at header
  rcases lt_or_ge channel.size maxPacketSize with small | large
  case inr => exact .inr (.inr (.inl ⟨slot, channel, s, .mk s header large⟩))
  rcases prefixSplit (addcodeWidth channel) s with short | ⟨addcode, s, wide, rfl⟩
  · exact .inl (.addcode s header small short)
  have opened := Opened.mk header small wide
  rw [← List.append_assoc]
  generalize head ++ addcode = head at opened
  rcases Classical.em (0 < channel.dataType) with typed | zero
  · rcases Nat.lt_or_ge s.length (wireLength chunk channel.size.toNat) with short | enough
    · exact .inr (.inl (.truncated s opened typed short))
    · obtain ⟨data, seps, body, rest, rfl, size, layout⟩ := layoutRead positive _ s enough
      refine .inr (.inr (.inr ⟨slot, channel, data, _, rest,
        .mk opened (.chunked typed size layout), ?_⟩))
      rw [List.append_assoc]
  · rcases prefixSplit 4 s with short | ⟨data, rest, four, rfl⟩
    · exact .inl (.untyped s opened zero short)
    · rcases lt_or_ge channel.size 4 with cramped | room
      · refine .inr (.inl (.cramped _ opened zero ?_ cramped))
        rw [List.length_append, four]
        exact Nat.le_add_right 4 _
      · refine .inr (.inr (.inr ⟨slot, channel, data, _, rest,
          .mk opened (.untyped zero four room), ?_⟩))
        rw [List.append_assoc]

theorem basicHeaderNonempty {packetMask : Nat} {channelId : Int} {basic : Bytes}
    (h : BasicHeader packetMask channelId basic) : 1 ≤ basic.length ∧ packetMask ≤ 3 := by
  cases h with
  | short first form | middle first b form | long first a b form =>
    have := first.toNat_lt
    simp only [List.length_cons]
    omega

theorem headNonempty {table : ChannelTable} {slot : Fin 64} {channel : Channel} {head : Bytes}
    (h : Head table slot channel head) : 1 ≤ head.length := by
  cases h with
  | mk named used width =>
    have := (basicHeaderNonempty named).1
    rw [List.length_append]
    omega

theorem openedNonempty {table : ChannelTable} {slot : Fin 64} {channel : Channel} {head : Bytes}
    (h : Opened table slot channel head) : 1 ≤ head.length := by
  cases h with
  | mk header small width =>
    have := headNonempty header
    rw [List.length_append]
    omega

theorem messageNonempty {chunk : Nat} {table : ChannelTable} {slot : Fin 64} {channel : Channel}
    {data wire : Bytes} (h : Message chunk table slot channel data wire) : 1 ≤ wire.length := by
  cases h with
  | mk opened payload =>
    have := openedNonempty opened
    rw [List.length_append]
    omega

theorem receivedUsed (packetMask : Nat) (pchannel : Channel) (fields : Bytes) :
    (receivedChannel packetMask pchannel fields).used = pchannel.used := by
  unfold receivedChannel
  split
  · rfl
  · split
    · rfl
    · split <;> rfl

theorem headUsed {table : ChannelTable} {slot : Fin 64} {channel : Channel} {head : Bytes}
    (h : Head table slot channel head) :
    channel.used = true ∧ (table slot).used = true := by
  cases h with
  | mk named used width =>
    rw [receivedUsed]
    exact ⟨used, used⟩

theorem refusedUsed {table : ChannelTable} {slot : Fin 64} {channel : Channel} {data s : Bytes}
    (h : Refused table slot channel data s) : (table slot).used = true := by
  cases h with
  | mk rest header large => exact (headUsed header).2

theorem messageUsed {chunk : Nat} {table : ChannelTable} {slot : Fin 64} {channel : Channel}
    {data wire : Bytes} (h : Message chunk table slot channel data wire) :
    (table slot).used = true := by
  cases h with
  | mk opened payload =>
    cases opened with
    | mk header small width => exact (headUsed header).2

end Rushkit
