import Rushkit.Message

/-! What the packet reader does depends on the unread bytes only, not on where in
their block they lie. -/
namespace Rushkit
open ReadBuffer Fallible

def Alike {α : Type} (r r' : α × ReadBuffer) : Prop := r.1 = r'.1 ∧ r.2.unread = r'.2.unread

def AlikeStep (r r' : Option Packet × RtmpProto × ReadBuffer) : Prop :=
  r.1 = r'.1 ∧ r.2.1 = r'.2.1 ∧ r.2.2.unread = r'.2.2.unread

section Reads
variable {pb pb' : ReadBuffer} (same : pb.unread = pb'.unread)
include same

theorem readEAlike {n : Int} (positive : 0 ≤ n) :
    Related Alike (rtmpRbReadE pb n) (rtmpRbReadE pb' n) := by
  obtain ⟨n, rfl⟩ := Int.eq_ofNat_of_zero_le positive
  rcases Nat.lt_or_ge pb.unread.length n with short | enough
  · rw [readEShort pb (Int.ofNat_lt.mpr short), readEShort pb' (Int.ofNat_lt.mpr (same ▸ short))]
    exact .error _
  · rw [readESkip pb n enough, readESkip pb' n (same ▸ enough)]
    exact .ok ⟨by rw [same], by rw [unreadSkip, unreadSkip, same]⟩

theorem readThenAlike {α : Type} {n : Int} (positive : 0 ≤ n) (f : Bytes → α) :
    Related Alike (rtmpRbReadE pb n >>= fun r => .ok (f r.1, r.2))
      (rtmpRbReadE pb' n >>= fun r => .ok (f r.1, r.2)) :=
  relatedBind (readEAlike same positive) fun _ _ h => .ok ⟨congrArg f h.1, h.2⟩

theorem askAlike {n : Int} (positive : 0 ≤ n) :
    (rtmpRbAssertSize pb n = (true, pb) ∧ rtmpRbAssertSize pb' n = (true, pb')) ∨
    ∃ q q', rtmpRbAssertSize pb n = (false, q) ∧ rtmpRbAssertSize pb' n = (false, q') ∧
      q.unread = q'.unread := by
  obtain ⟨n, rfl⟩ := Int.eq_ofNat_of_zero_le positive
  rcases Nat.lt_or_ge pb.unread.length n with short | enough
  · obtain ⟨refused, _, left⟩ := assertSizeShort pb short
    obtain ⟨refused', _, left'⟩ := assertSizeShort pb' (same ▸ short)
    exact .inr ⟨_, _, by rw [← refused], by rw [← refused'], (left.trans same).trans left'.symm⟩
  · exact .inl ⟨assertSizeEnough pb enough, assertSizeEnough pb' (same ▸ enough)⟩

theorem readByteAlike : Related Alike (rtmpRbReadByteE pb) (rtmpRbReadByteE pb') :=
  readThenAlike same (n := 1) (by decide) fun src => src.headD 0

theorem readShortAlike : Related Alike (rtmpRbReadShortE pb) (rtmpRbReadShortE pb') :=
  readThenAlike same (n := 2) (by decide) wireShort

theorem readIntAlike : Related Alike (rtmpRbReadIntE pb) (rtmpRbReadIntE pb') :=
  readThenAlike same (n := 4) (by decide) wireInt

theorem readMediumAlike : Related Alike (rtmpRbReadMediumIntE pb) (rtmpRbReadMediumIntE pb') :=
  readThenAlike same (n := 3) (by decide) mediumInt

theorem readFieldsAlike (packetMask : Nat) (pchannel : Channel) :
    Related Alike (readFields packetMask pchannel pb) (readFields packetMask pchannel pb') := by
  unfold readFields
  split
  · rcases askAlike same (n := 11) (by decide) with ⟨ask, ask'⟩ | ⟨q, q', ask, ask', left⟩
    · simp only [ask, ask']
      refine relatedBind (readMediumAlike same) ?_
      rintro ⟨timer, _⟩ ⟨_, _⟩ ⟨rfl, same⟩
      refine relatedBind (readMediumAlike same) ?_
      rintro ⟨size, _⟩ ⟨_, _⟩ ⟨rfl, same⟩
      refine relatedBind (readByteAlike same) ?_
      rintro ⟨dataType, _⟩ ⟨_, _⟩ ⟨rfl, same⟩
      exact relatedBind (readIntAlike same) fun _ _ h => .ok ⟨by rw [h.1], h.2⟩
    · simp only [ask, ask']
      exact .ok ⟨rfl, left⟩
  · split
    · rcases askAlike same (n := 7) (by decide) with ⟨ask, ask'⟩ | ⟨q, q', ask, ask', left⟩
      · simp only [ask, ask']
        refine relatedBind (readMediumAlike same) ?_
        rintro ⟨timer, _⟩ ⟨_, _⟩ ⟨rfl, same⟩
        refine relatedBind (readMediumAlike same) ?_
        rintro ⟨size, _⟩ ⟨_, _⟩ ⟨rfl, same⟩
        exact relatedBind (readByteAlike same) fun _ _ h => .ok ⟨by rw [h.1], h.2⟩
      · simp only [ask, ask']
        exact .ok ⟨rfl, left⟩
    · split
      · rcases askAlike same (n := 3) (by decide) with ⟨ask, ask'⟩ | ⟨q, q', ask, ask', left⟩
        · simp only [ask, ask']
          exact relatedBind (readMediumAlike same) fun _ _ h => .ok ⟨by rw [h.1], h.2⟩
        · simp only [ask, ask']
          exact .ok ⟨rfl, left⟩
      · exact .ok ⟨rfl, same⟩

theorem readAddcodeAlike (pchannel : Channel) :
    Related Alike (readAddcode pchannel pb) (readAddcode pchannel pb') := by
  unfold readAddcode
  split
  · rcases askAlike same (n := 4) (by decide) with ⟨ask, ask'⟩ | ⟨q, q', ask, ask', left⟩
    · simp only [ask, ask']
      exact relatedBind (readIntAlike same) fun _ _ h => .ok ⟨rfl, h.2⟩
    · simp only [ask, ask']
      exact .ok ⟨rfl, left⟩
  · exact .ok ⟨rfl, same⟩

end Reads

theorem readChunksAlike (chunkSize : Nat) {hb : Int} (positive : 1 ≤ hb) (fuel fuel' : Nat)
    (dataBuffer : FixBuffer) {pb pb' : ReadBuffer} (same : pb.unread = pb'.unread)
    (enough : pb.unread.length < fuel) (enough' : pb.unread.length < fuel') :
    Related Alike (readChunks chunkSize hb fuel dataBuffer pb)
      (readChunks chunkSize hb fuel' dataBuffer pb') := by
  induction fuel generalizing fuel' dataBuffer pb pb' with
  | zero => omega
  | succ fuel ih =>
    obtain ⟨fuel', rfl⟩ : ∃ n, fuel' = n + 1 := ⟨fuel' - 1, by omega⟩
    obtain ⟨width, rfl⟩ := Int.eq_ofNat_of_zero_le (Int.le_trans (by decide) positive)
    unfold readChunks
    split
    · rcases Nat.lt_or_ge pb.unread.length chunkSize with short | whole
      · rw [readEShort pb (by omega), readEShort pb' (by rw [← same]; omega)]
        exact .error _
      rw [readESkip pb chunkSize whole, readESkip pb' chunkSize (same ▸ whole), ← same]
      simp only [okBind]
      have behind : (pb.skip chunkSize).unread = (pb'.skip chunkSize).unread := by
        rw [unreadSkip, unreadSkip, same]
      have fewer : (pb.skip chunkSize).unread.length = pb.unread.length - chunkSize := by
        rw [unreadSkip, List.length_drop]
      cases rtmpFwbWrite dataBuffer (pb.unread.take chunkSize) with
      | error e => exact .error e
      | ok grown =>
        simp only [okBind]
        rcases Nat.lt_or_ge (pb.skip chunkSize).unread.length width with short | header
        · rw [readEShort _ (by omega), readEShort _ (by rw [← behind]; omega)]
          exact .error _
        rw [readESkip _ width header, readESkip _ width (behind ▸ header)]
        simp only [okBind]
        have left : ((pb.skip chunkSize).skip width).unread.length =
            pb.unread.length - chunkSize - width := by rw [unreadSkip, List.length_drop, fewer]
        have further : ((pb.skip chunkSize).skip width).unread = ((pb'.skip chunkSize).skip width).unread := by
          rw [unreadSkip (pb.skip chunkSize), unreadSkip (pb'.skip chunkSize), behind]
        exact ih fuel' grown further (by omega) (by omega)
    · exact .ok ⟨rfl, same⟩

theorem readRemainderAlike (dataBuffer : FixBuffer) {pb pb' : ReadBuffer}
    (same : pb.unread = pb'.unread) :
    Related Alike (readRemainder dataBuffer pb) (readRemainder dataBuffer pb') := by
  unfold readRemainder
  split
  · rename_i more
    refine relatedBind (readEAlike same (by omega)) ?_
    rintro ⟨dv, _⟩ ⟨_, _⟩ ⟨rfl, same⟩
    dsimp only
    cases rtmpFwbWrite dataBuffer dv with
    | error e => exact .error e
    | ok filled => exact .ok ⟨rfl, same⟩
  · exact .ok ⟨rfl, same⟩

theorem blockBound (pb : ReadBuffer) : pb.unread.length < pb.buf.length + 1 := by
  rw [unread, List.length_drop]
  omega

section Steps
variable (proto : RtmpProto) {pb pb' : ReadBuffer} (same : pb.unread = pb'.unread)
include same

theorem getR2Alike : Related AlikeStep (getR2 proto pb) (getR2 proto pb') := by
  unfold getR2
  split
  · rcases askAlike same (n := 1) (by decide) with ⟨ask, ask'⟩ | ⟨q, q', ask, ask', left⟩
    · simp only [ask, ask']
      exact relatedBind (readByteAlike same) fun _ _ h => .ok ⟨rfl, by rw [h.1], h.2⟩
    · simp only [ask, ask']
      exact .ok ⟨rfl, rfl, left⟩
  · split
    · rcases askAlike same (n := 2) (by decide) with ⟨ask, ask'⟩ | ⟨q, q', ask, ask', left⟩
      · simp only [ask, ask']
        exact relatedBind (readShortAlike same) fun _ _ h => .ok ⟨rfl, by rw [h.1], h.2⟩
      · simp only [ask, ask']
        exact .ok ⟨rfl, rfl, left⟩
    · exact .ok ⟨rfl, rfl, same⟩

theorem getR4Alike : Related AlikeStep (getR4 proto pb) (getR4 proto pb') := by
  unfold getR4
  cases rtmpProtoGetChannel proto with
  | error e => exact .error e
  | ok slot =>
    simp only [okBind]
    refine relatedBind (readFieldsAlike same _ _) ?_
    rintro ⟨fields, q⟩ ⟨_, q'⟩ ⟨rfl, same⟩
    cases fields with
    | none => exact .ok ⟨rfl, rfl, same⟩
    | some pchannel =>
      dsimp only
      split
      · rw [spaceUnread, spaceUnread, same]
        refine relatedBind (readEAlike same (Int.natCast_nonneg _)) ?_
        rintro ⟨data, _⟩ ⟨_, _⟩ ⟨rfl, same⟩
        dsimp only
        cases newInvalidPacket (setChannelIn proto slot pchannel) data with
        | error e => exact .error e
        | ok pack => exact .ok ⟨rfl, rfl, same⟩
      · exact .ok ⟨rfl, rfl, same⟩

theorem getR5Alike : Related AlikeStep (getR5 proto pb) (getR5 proto pb') := by
  unfold getR5
  cases rtmpProtoGetChannel proto with
  | error e => exact .error e
  | ok slot =>
    simp only [okBind]
    refine relatedBind (readAddcodeAlike same _) ?_
    rintro ⟨arrived, q⟩ ⟨_, q'⟩ ⟨rfl, same⟩
    dsimp only
    split <;> exact .ok ⟨rfl, rfl, same⟩

theorem getR6Alike : Related AlikeStep (getR6 proto pb) (getR6 proto pb') := by
  unfold getR6
  cases rtmpProtoGetChannel proto with
  | error e => exact .error e
  | ok slot =>
    simp only [okBind]
    split
    · refine relatedBind (readChunksAlike _ ?_ _ _ _ same (blockBound pb) (same ▸ blockBound pb')) ?_
      · unfold countHeaderBytes
        split
        · decide
        · split <;> decide
      rintro ⟨chunks, _⟩ ⟨_, _⟩ ⟨rfl, same⟩
      refine relatedBind (readRemainderAlike chunks same) ?_
      rintro ⟨dataBuffer, _⟩ ⟨_, _⟩ ⟨rfl, same⟩
      dsimp only
      cases getPacket { proto with dataBuffer } with
      | error e => exact .error e
      | ok pack => exact .ok ⟨rfl, rfl, same⟩
    · rcases askAlike same (n := 4) (by decide) with ⟨ask, ask'⟩ | ⟨q, q', ask, ask', left⟩
      · simp only [ask, ask']
        refine relatedBind (readEAlike same (by decide)) ?_
        rintro ⟨data, _⟩ ⟨_, _⟩ ⟨rfl, same⟩
        dsimp only
        cases rtmpFwbWrite proto.dataBuffer data with
        | error e => exact .error e
        | ok dataBuffer =>
          simp only [okBind]
          cases getPacket { proto with dataBuffer } with
          | error e => exact .error e
          | ok pack => exact .ok ⟨rfl, rfl, same⟩
      · simp only [ask, ask']
        exact .ok ⟨rfl, rfl, left⟩

theorem stepAlike : Related AlikeStep (packetStep proto pb) (packetStep proto pb') := by
  unfold packetStep
  split
  · exact .ok ⟨rfl, rfl, same⟩
  · exact relatedBind (readEAlike same (by decide)) fun _ _ h => .ok ⟨rfl, by rw [h.1], h.2⟩
  · exact getR2Alike proto same
  · unfold getR3
    cases check Site.getR3 (proto.channelId < 64) with
    | error e => exact .error e
    | ok _ => exact .ok ⟨rfl, rfl, same⟩
  · exact getR4Alike proto same
  · exact getR5Alike proto same
  · exact getR6Alike proto same
  · exact .ok ⟨rfl, rfl, same⟩

end Steps

end Rushkit
