import Rushkit.WriteBlocks

/-! Sequences of values through a write buffer and back through a read buffer (`buffer.c`). What
is read is what was written, as long as the pool hands out blocks of the buffer's capacity. -/
namespace Rushkit
open Amf ReadBuffer

inductive Datum where
  | raw (data : Bytes)
  | byte (src : UInt8)
  | short (src : Int)
  | int (src : Int)
  | reverseInt (src : Int)
  | mediumInt (e : Int)
  | double (src : BitVec 64)
  | string (str : Bytes)
  deriving DecidableEq, Repr

-- What the type of its reader holds.
def Datum.Sound : Datum → Prop
  | .raw _ | .byte _ | .double _ => True
  | .short src => -32768 ≤ src ∧ src < 32768
  | .int src | .reverseInt src => -2147483648 ≤ src ∧ src < 2147483648
  | .mediumInt e => 0 ≤ e ∧ e < 16777216
  | .string str => str.length ≤ 32767

-- Two's complement.
def littleEndian (w : Nat) (x : Int) : Bytes := ByteOrder.encode w (x % 256 ^ w).toNat

def bigEndian (w : Nat) (x : Int) : Bytes := (littleEndian w x).reverse

def Datum.encoding : Datum → Bytes
  | .raw data => data
  | .byte src => [src]
  | .short src => bigEndian 2 src
  | .int src => bigEndian 4 src
  | .reverseInt src => littleEndian 4 src
  | .mediumInt e => bigEndian 3 e
  | .double src => bigEndian 8 src.toNat
  | .string str => bigEndian 2 str.length ++ str

def encodings (data : List Datum) : Bytes := data.flatMap Datum.encoding

def Datum.write (pool : PoolBlocks) (pb : BlockBuffer) : Datum → Res BlockBuffer
  | .raw data => rtmpWbWriteAt pool pb data
  | .byte src => rtmpWbWriteByteAt pool pb src
  | .short src => rtmpWbWriteShortAt pool pb src
  | .int src => rtmpWbWriteIntAt pool pb src
  | .reverseInt src => rtmpWbWriteReverseIntAt pool pb src
  | .mediumInt e => rtmpWbWriteMediumIntAt pool pb e
  | .double src => rtmpWbWriteDoubleAt pool pb src
  | .string str => rtmpWbWriteStringAt pool pb str

def writeAll (pool : PoolBlocks) : BlockBuffer → List Datum → Res BlockBuffer
  | pb, [] => .ok pb
  | pb, d :: ds => do
    let pb ← d.write pool pb
    writeAll pool pb ds

-- Which reader matches; a block is read by its length.
inductive Kind where
  | raw (nlen : Nat)
  | byte
  | short
  | int
  | reverseInt
  | mediumInt
  | double
  | string
  deriving DecidableEq, Repr

def Datum.kind : Datum → Kind
  | .raw data => .raw data.length
  | .byte _ => .byte
  | .short _ => .short
  | .int _ => .int
  | .reverseInt _ => .reverseInt
  | .mediumInt _ => .mediumInt
  | .double _ => .double
  | .string _ => .string

def Kind.read (pb : ReadBuffer) : Kind → Res (Datum × ReadBuffer)
  | .raw nlen => do
    let (data, pb) ← rtmpRbReadE pb nlen
    .ok (.raw data, pb)
  | .byte => do
    let (res, pb) ← rtmpRbReadByteE pb
    .ok (.byte res, pb)
  | .short => do
    let (res, pb) ← rtmpRbReadShortE pb
    .ok (.short res, pb)
  | .int => do
    let (res, pb) ← rtmpRbReadIntE pb
    .ok (.int res, pb)
  | .reverseInt => do
    let (res, pb) ← rtmpRbReadReverseIntE pb
    .ok (.reverseInt res, pb)
  | .mediumInt => do
    let (res, pb) ← rtmpRbReadMediumIntE pb
    .ok (.mediumInt res, pb)
  | .double => do
    let (res, pb) ← rtmpRbReadDoubleE pb
    .ok (.double res, pb)
  | .string => do
    let (strlen, str, pb) ← rtmpRbReadStringE pb
    .ok (.string (str.take strlen.toNat), pb)

def readAll : List Kind → ReadBuffer → Res (List Datum × ReadBuffer)
  | [], pb => .ok ([], pb)
  | kind :: kinds, pb => do
    let (d, pb) ← kind.read pb
    let (ds, pb) ← readAll kinds pb
    .ok (d :: ds, pb)

@[simp] theorem littleEndianLength (w : Nat) (x : Int) : (littleEndian w x).length = w :=
  ByteOrder.encodeLength w _

@[simp] theorem bigEndianLength (w : Nat) (x : Int) : (bigEndian w x).length = w := by
  rw [bigEndian, List.length_reverse, littleEndianLength]

theorem hostWord {w n : Nat} (exact : 256 ^ w = 2 ^ n) (src : Int) :
    hostBytes w (BitVec.ofInt n src) = littleEndian w src := by
  have same : ((2 ^ n : Nat) : Int) = 256 ^ w := by exact_mod_cast exact.symm
  rw [hostBytesEncode, ByteOrder.encodeBits, BitVec.toNat_ofInt, same, littleEndian]

theorem loadedWord {w n : Nat} (exact : 256 ^ w = 2 ^ n) (src : Int) :
    loadData (hostBytes w (BitVec.ofInt n src)) = bigEndian w src := by
  rw [loadDataReversed, hostWord exact, bigEndian]

theorem hostDouble (src : BitVec 64) : loadData (hostBytes 8 src) = bigEndian 8 src.toNat := by
  rw [← loadedWord (n := 64) (by decide), BitVec.ofInt_natCast, BitVec.ofNat_toNat, BitVec.setWidth_eq]

theorem mediumWord (e : Int) : mediumBytes e = bigEndian 3 e := by
  have digit {x : Int} {n : Nat} (same : x % 256 = n % 256) : UInt8.ofInt x = UInt8.ofNat n := by
    have value := byteValue x
    apply UInt8.toNat_inj.mp
    rw [UInt8.toNat_ofNat']
    omega
  show [_, _, _] = [_, _, _]
  rw [digit, digit, digit] <;> omega

theorem wordBack {w n : Nat} (exact : 256 ^ w = 2 ^ n) (src : Int) :
    ofHostBytes n (loadData (bigEndian w src)) = BitVec.ofInt n src := by
  rw [← loadedWord exact, loadedBack w exact.ge]

theorem reverseBack {w n : Nat} (exact : 256 ^ w = 2 ^ n) (src : Int) :
    ofHostBytes n (loadDataReverse (littleEndian w src)) = BitVec.ofInt n src := by
  rw [← hostWord exact]
  exact ofHostBytesHostBytes w exact.ge _

theorem readWord {pb : ReadBuffer} {w : Nat} {src : Int} {rest : Bytes}
    (h : pb.unread = bigEndian w src ++ rest) :
    rtmpRbReadE pb w = .ok (bigEndian w src, pb.skip w) := by
  have read := readEAppend pb h (n := w) (by rw [bigEndianLength])
  rwa [bigEndianLength] at read

theorem readShort {pb : ReadBuffer} {src : Int} (low : -32768 ≤ src) (high : src < 32768) {rest : Bytes}
    (h : pb.unread = bigEndian 2 src ++ rest) : rtmpRbReadShortE pb = .ok (src, pb.skip 2) := by
  have read : rtmpRbReadE pb 2 = _ := readWord h
  have exact : 256 ^ 2 = 2 ^ 16 := by decide
  simp only [rtmpRbReadShortE, read, Fallible.okBind, wordBack exact, shortValue low high]

theorem readString {pb : ReadBuffer} {str : Bytes} (short : str.length ≤ 32767) {rest : Bytes}
    (h : pb.unread = (bigEndian 2 str.length ++ str) ++ rest) :
    rtmpRbReadStringE pb = .ok (str.length, str, pb.skip (bigEndian 2 str.length ++ str).length) := by
  have size : (bigEndian 2 str.length ++ str).length = 2 + str.length := by
    rw [List.length_append, bigEndianLength]
  have enough : rtmpRbAssertSize pb (2 : Nat) = (true, pb) := by
    refine assertSizeEnough pb ?_
    rw [h, List.length_append]
    omega
  have asked : rtmpRbAssertSize pb 2 = (true, pb) := enough
  have named := readShort (by omega) (by omega) (h.trans (List.append_assoc _ _ _))
  have read := readEAppend pb h (n := str.length + 2) (by omega)
  have behind : (bigEndian 2 str.length ++ str).drop 2 = str := List.drop_left' (bigEndianLength 2 _)
  simp only [rtmpRbReadStringE, asked, named, read, Fallible.okBind, behind]

/-- By the reader; `rest` lies behind the value. -/
theorem readDatum {d : Datum} (sound : d.Sound) {pb : ReadBuffer} {rest : Bytes}
    (h : pb.unread = d.encoding ++ rest) : d.kind.read pb = .ok (d, pb.skip d.encoding.length) := by
  cases d with
  | raw data =>
    have read := readEAppend pb h rfl
    simp only [Datum.kind, Kind.read, Datum.encoding] at *
    rw [read, Fallible.okBind]
  | byte src =>
    have read := readEAppend pb h (n := 1) rfl
    simp only [Datum.kind, Kind.read, rtmpRbReadByteE, read, Fallible.okBind]
    rfl
  | short src =>
    have read := readShort sound.1 sound.2 h
    simp only [Datum.kind, Kind.read, read, Fallible.okBind, Datum.encoding, bigEndianLength]
  | int src =>
    have read : rtmpRbReadE pb 4 = _ := readWord h
    simp only [Datum.kind, Kind.read, rtmpRbReadIntE, read, Fallible.okBind, Datum.encoding, bigEndianLength]
    rw [wordBack (by decide), longValue sound.1 sound.2]
  | reverseInt src =>
    have read := readEAppend pb h (n := 4) rfl
    simp only [Datum.kind, Kind.read, rtmpRbReadReverseIntE, read, Fallible.okBind, Datum.encoding]
    rw [reverseBack (by decide), longValue sound.1 sound.2]
  | mediumInt e =>
    have read : rtmpRbReadE pb 3 = _ := readWord h
    have value := mediumRead sound.1 sound.2 []
    rw [List.append_nil, mediumWord] at value
    simp only [Datum.kind, Kind.read, rtmpRbReadMediumIntE, read, Fallible.okBind, Datum.encoding,
      bigEndianLength, value]
  | double src =>
    have read : rtmpRbReadE pb 8 = _ := readWord h
    simp only [Datum.kind, Kind.read, rtmpRbReadDoubleE, read, Fallible.okBind, Datum.encoding,
      bigEndianLength]
    rw [← hostDouble, loadedBack 8 (by decide)]
  | string str =>
    have read := readString sound h
    simp only [Datum.kind, Kind.read, read, Fallible.okBind, Datum.encoding, Int.toNat_natCast,
      List.take_length]

theorem readAllEncoded {data : List Datum} (sound : ∀ d ∈ data, d.Sound) {pb : ReadBuffer} {rest : Bytes}
    (h : pb.unread = encodings data ++ rest) :
    readAll (data.map Datum.kind) pb = .ok (data, pb.skip (encodings data).length) := by
  induction data generalizing pb with
  | nil =>
    show _ = Except.ok ([], pb.skip 0)
    rw [skipZero]
    rfl
  | cons d ds ih =>
    obtain ⟨here, later⟩ := List.forall_mem_cons.mp sound
    have split : pb.unread = d.encoding ++ (encodings ds ++ rest) := by
      rw [h, encodings, List.flatMap_cons, List.append_assoc]
      rfl
    have first := readDatum here split
    have others := ih later (unreadSkipAppend pb split)
    simp only [List.map_cons, readAll, first, others, Fallible.okBind, skipSkip, encodings,
      List.flatMap_cons, List.length_append]

/- The pool hands out blocks of the size asked for as long as the capacity with the extra space of
a trunk is an `int`; else they have the 2048 bytes of a trunk. -/
def Served (capacity : Int) (length : Nat) : Prop :=
  length ≤ 2048 ∨ capacity < 2147481600 ∧
    ∀ j : Nat, capacity * 2 ^ j < length → capacity * 2 ^ (j+1) < 2147481600

-- A buffer that started at `capacity` and holds exactly `bytes`.
structure Grown (capacity : Int) (pb : BlockBuffer) (bytes : Bytes) : Prop where
  value : pb.value = bytes
  whole : pb.buf.length = rtPoolAlloc (unsignedInt pb.capacity)
  doubled : DoubledTo capacity pb.capacity bytes.length

theorem grownInit (pool : PoolBlocks) {capacity : Int} (positive : 1 ≤ capacity) :
    Grown capacity (rtmpWbInitAt pool capacity) [] where
  value := rfl
  whole := wholeInit pool capacity
  doubled := doubledEnough (show 0 ≤ capacity by omega)

theorem Grown.current {capacity : Int} {pb : BlockBuffer} {bytes : Bytes} (h : Grown capacity pb bytes) :
    pb.current = bytes.length := by rw [← valueLength, h.value]

theorem servedShorter {capacity : Int} {length longer : Nat} (le : length ≤ longer)
    (served : Served capacity longer) : Served capacity length := by
  rcases served with small | ⟨first, doubles⟩
  · exact .inl (by omega)
  · exact .inr ⟨first, fun j below => doubles j (by omega)⟩

theorem blockSize {cap : Int} (positive : 0 < cap) (int : cap < 4294967296) :
    rtPoolAlloc (unsignedInt cap) = if cap < 2147481600 then cap.toNat else 2048 := by
  have same : unsignedInt cap = cap.toNat := by
    rw [unsignedInt, Int.emod_eq_of_lt positive.le (by omega)]
  rw [same, rtPoolAllocSize, Nat.mod_eq_of_lt (by omega)]
  split <;> split <;> omega

theorem doubledInt {first cap need : Int} (int : first < 2147483648) (bound : need < 1073741824)
    (h : DoubledTo first cap need) : cap < 2147483648 := by
  obtain ⟨j, rfl, _, short⟩ := h
  cases j with
  | zero => omega
  | succ j =>
    have last := short j (Nat.lt_succ_self j)
    rw [Int.pow_succ, ← Int.mul_assoc]
    omega

theorem doubledLater {first : Int} (positive : 0 ≤ first) {i j : Nat} (le : i ≤ j) :
    first * 2 ^ i ≤ first * 2 ^ j := by
  have power : (2 : Int) ^ i ≤ 2 ^ j := by exact_mod_cast Nat.pow_le_pow_right (by decide) le
  exact Int.mul_le_mul_of_nonneg_left power positive

section Blocks
variable {capacity cap : Int} {length : Nat} (positive : 1 ≤ capacity) (h : DoubledTo capacity cap length)
include positive h

theorem servedSmall (small : cap < 2147481600) : Served capacity length := by
  obtain ⟨j, same, enough, _⟩ := h
  have first : capacity * 2 ^ 0 ≤ capacity * 2 ^ j := doubledLater (by omega) (Nat.zero_le j)
  rw [Int.pow_zero, Int.mul_one] at first
  refine .inr ⟨by omega, fun i below => ?_⟩
  -- A doubling that is too small is not the last one.
  have before : i < j := by
    by_contra late
    have later : capacity * 2 ^ j ≤ capacity * 2 ^ i := doubledLater (by omega) (Nat.le_of_not_lt late)
    omega
  have next : capacity * 2 ^ (i+1) ≤ capacity * 2 ^ j := doubledLater (by omega) before
  omega

omit positive in
theorem smallServed (served : Served capacity length) : length ≤ 2048 ∨ cap < 2147481600 := by
  obtain ⟨j, same, _, short⟩ := h
  rcases served with small | ⟨first, doubles⟩
  · exact .inl small
  · cases j with
    | zero => omega
    | succ j =>
      have last := doubles j (short j (Nat.lt_succ_self j))
      omega

/-- Room in the block that the pool hands out, said by the sizes alone. -/
theorem servedBlock (int : capacity < 2147483648) (bound : length < 1073741824) :
    length ≤ rtPoolAlloc (unsignedInt cap) ↔ Served capacity length := by
  have high := doubledInt int (by omega) h
  have low := doubledPositive (by omega) h
  have enough := doubledHolds h
  rw [blockSize low (by omega)]
  constructor
  · intro fits
    split at fits
    · rename_i small
      exact servedSmall positive h small
    · exact .inl fits
  · intro served
    have room := smallServed h served
    split <;> omega

end Blocks

/- `write` puts `data` behind the bytes of a grown buffer; it returns as long as the blocks of the
pool serve the new length. -/
structure Appends (capacity : Int) (write : BlockBuffer → Res BlockBuffer) (data : Bytes) : Prop where
  keeps : ∀ pb pb' bytes, Grown capacity pb bytes → bytes.length + data.length < 1073741824 →
    write pb = .ok pb' → Grown capacity pb' (bytes ++ data)
  serves : ∀ pb bytes, Grown capacity pb bytes → bytes.length + data.length < 1073741824 →
    Served capacity (bytes.length + data.length) → ∃ pb', write pb = .ok pb'

section Runs
variable {capacity : Int} (positive : 1 ≤ capacity)
include positive

theorem Grown.capacityPositive {pb : BlockBuffer} {bytes : Bytes} (h : Grown capacity pb bytes) :
    0 < pb.capacity := doubledPositive (by omega) h.doubled

theorem writeKeeps {pool : PoolBlocks} {pb pb' : BlockBuffer} {bytes data : Bytes}
    (grown : Grown capacity pb bytes) (bound : bytes.length + data.length < 1073741824)
    (ok : rtmpWbWriteAt pool pb data = .ok pb') : Grown capacity pb' (bytes ++ data) := by
  have current := grown.current
  obtain ⟨_, value, whole, doubled⟩ :=
    writeRefines (grown.capacityPositive positive) grown.whole (by omega) ok
  rw [current, ← List.length_append] at doubled
  have further : (bytes.length : Int) ≤ (bytes ++ data).length := by
    rw [List.length_append]
    omega
  exact ⟨by rw [value, grown.value], whole, doubledFurther grown.doubled further doubled⟩

variable (int : capacity < 2147483648)
include int

theorem grownServed {pb : BlockBuffer} {bytes : Bytes} (grown : Grown capacity pb bytes)
    (bound : bytes.length < 1073741824) : Served capacity bytes.length := by
  have inside := pb.inside
  rw [grown.current, grown.whole] at inside
  exact (servedBlock positive grown.doubled int bound).mp inside

theorem appendsWrite (pool : PoolBlocks) (data : Bytes) :
    Appends capacity (fun pb => rtmpWbWriteAt pool pb data) data where
  keeps _ _ _ grown bound ok := writeKeeps positive grown bound ok
  serves pb bytes grown bound served := by
    have current := grown.current
    obtain ⟨cap, doubled, _, fits, _⟩ :=
      writeAt pool (grown.capacityPositive positive) grown.whole data (by omega)
    rw [current] at doubled fits
    have further : (bytes.length : Int) ≤ (bytes.length + data.length : Nat) := by omega
    have reached := doubledFurther grown.doubled further doubled
    obtain ⟨pb', ok, _⟩ := fits ((servedBlock positive reached int bound).mpr served)
    exact ⟨pb', ok⟩

omit positive int in
theorem appendsNothing : Appends capacity .ok [] where
  keeps pb pb' bytes grown _ ok := by
    cases Except.ok.inj ok
    rw [List.append_nil]
    exact grown
  serves pb _ _ _ _ := ⟨pb, rfl⟩

omit positive int in
theorem appendsThen {first next : BlockBuffer → Res BlockBuffer} {xs ys : Bytes}
    (h : Appends capacity first xs) (h' : Appends capacity next ys) :
    Appends capacity (fun pb => first pb >>= next) (xs ++ ys) where
  keeps pb pb' bytes grown bound ok := by
    rw [List.length_append] at bound
    obtain ⟨mid, ok, ok'⟩ := Fallible.bindOk.mp ok
    have between := h.keeps pb mid bytes grown (by omega) ok
    rw [← List.append_assoc]
    exact h'.keeps mid pb' _ between (by rw [List.length_append]; omega) ok'
  serves pb bytes grown bound served := by
    rw [List.length_append] at bound served
    have first : Served capacity (bytes.length + xs.length) := servedShorter (by omega) served
    obtain ⟨mid, ok⟩ := h.serves pb bytes grown (by omega) first
    have between := h.keeps pb mid bytes grown (by omega) ok
    rw [← Nat.add_assoc, ← List.length_append] at bound served
    obtain ⟨pb', ok'⟩ := h'.serves mid _ between bound served
    exact ⟨pb', Fallible.bindOk.mpr ⟨mid, ok, ok'⟩⟩

theorem appendsDatum (pool : PoolBlocks) (d : Datum) :
    Appends capacity (fun pb => d.write pool pb) d.encoding := by
  have appends {written encoding : Bytes} (same : written = encoding) :
      Appends capacity (fun pb => rtmpWbWriteAt pool pb written) encoding :=
    same ▸ appendsWrite positive int pool written
  cases d with
  | raw data => exact appends rfl
  | byte src => exact appends rfl
  | short src => exact appends (loadedWord (by decide) src)
  | int src => exact appends (loadedWord (by decide) src)
  | reverseInt src => exact appends (hostWord (by decide) src)
  | mediumInt e => exact appends (mediumWord e)
  | double src => exact appends (hostDouble src)
  | string str => exact appendsThen (appends (loadedWord (by decide) str.length)) (appends rfl)

theorem appendsAll (pool : PoolBlocks) (data : List Datum) :
    Appends capacity (fun pb => writeAll pool pb data) (encodings data) := by
  induction data with
  | nil => exact appendsNothing
  | cons d ds ih => exact appendsThen (appendsDatum positive int pool d) ih

theorem writeAllGrown {pool : PoolBlocks} {data : List Datum} (bound : (encodings data).length < 1073741824)
    (served : Served capacity (encodings data).length) :
    ∃ pb, writeAll pool (rtmpWbInitAt pool capacity) data = .ok pb ∧ Grown capacity pb (encodings data) := by
  have appends := appendsAll positive int pool data
  have start := grownInit pool positive
  have same : ([] : Bytes).length + (encodings data).length = (encodings data).length := Nat.zero_add _
  obtain ⟨pb, ok⟩ := appends.serves _ [] start (by omega) (by rw [same]; exact served)
  exact ⟨pb, ok, appends.keeps _ pb [] start (by omega) ok⟩

end Runs

theorem Grown.stored {capacity : Int} {pb : BlockBuffer} {bytes : Bytes} (h : Grown capacity pb bytes) :
    rtmpWbGetValueAt pb = (bytes, (bytes.length : Int)) ∧ rtmpWbLengthAt pb ≤ pb.capacity := by
  rw [rtmpWbGetValueAt, rtmpWbLengthAt, h.value, h.current]
  exact ⟨rfl, doubledHolds h.doubled⟩

/- Every write returns with the bytes so far, and the readers give the values back. -/
structure RoundTrips (pool : PoolBlocks) (capacity : Int) (data : List Datum) : Prop where
  writes : ∀ written rest, data = written ++ rest → ∃ pb,
    writeAll pool (rtmpWbInitAt pool capacity) written = .ok pb ∧
    rtmpWbGetValueAt pb = (encodings written, ((encodings written).length : Int)) ∧
    rtmpWbLengthAt pb ≤ pb.capacity
  reads : ∃ pb pb', writeAll pool (rtmpWbInitAt pool capacity) data = .ok pb ∧
    readAll (data.map Datum.kind) (rtmpRbInit (rtmpWbGetValueAt pb).1) = .ok (data, pb') ∧
    rtmpRbGetSpace pb' = 0

theorem bufferRoundTrip (pool : PoolBlocks) {capacity : Int} (positive : 1 ≤ capacity)
    (int : capacity < 2147483648) {data : List Datum} (sound : ∀ d ∈ data, d.Sound)
    (bound : (encodings data).length < 1073741824) :
    RoundTrips pool capacity data ↔ Served capacity (encodings data).length := by
  constructor
  · intro trips
    obtain ⟨pb, _, ok, _⟩ := trips.reads
    have start := grownInit pool positive
    have grown := (appendsAll positive int pool data).keeps _ pb [] start (by simpa using bound) ok
    exact grownServed positive int grown bound
  · intro served
    constructor
    · rintro written rest rfl
      have shorter : (encodings written).length ≤ (encodings (written ++ rest)).length := by
        rw [encodings, encodings, List.flatMap_append, List.length_append]
        exact Nat.le_add_right _ _
      obtain ⟨pb, ok, grown⟩ := writeAllGrown positive int (shorter.trans_lt bound)
        (servedShorter shorter served)
      exact ⟨pb, ok, grown.stored⟩
    · obtain ⟨pb, ok, grown⟩ := writeAllGrown positive int bound served
      have unread : (rtmpRbInit (encodings data)).unread = encodings data ++ [] := (List.append_nil _).symm
      have read := readAllEncoded sound unread
      refine ⟨pb, _, ok, by rw [grown.stored.1]; exact read, ?_⟩
      rw [spaceUnread, unreadSkipAppend _ unread]
      rfl

theorem bufferRoundTripMixed : RoundTrips zeroBlocks 1
    [.string [111, 110], .short (-2), .double 0x3ff8000000000000, .mediumInt 16777215, .reverseInt (-3),
      .raw [], .int 7, .byte 255, .raw [1, 2, 3, 4, 5, 6, 7]] := by
  have sound : ∀ d ∈ [Datum.string [111, 110], .short (-2), .double 0x3ff8000000000000,
      .mediumInt 16777215, .reverseInt (-3), .raw [], .int 7, .byte 255, .raw [1, 2, 3, 4, 5, 6, 7]],
      d.Sound := by
    simp [Datum.Sound]
  exact (bufferRoundTrip zeroBlocks (by decide) (by decide) sound (by decide)).mpr (.inl (by decide))

-- The block of the largest capacity has the 2048 bytes of a trunk.
theorem largeCapacityOverruns : (encodings [.raw (List.replicate 2049 0)]).length = 2049 ∧
    writeAll zeroBlocks (rtmpWbInitAt zeroBlocks 2147483647) [.raw (List.replicate 2049 0)] =
      .error .overWrite ∧
    ¬ RoundTrips zeroBlocks 2147483647 [.raw (List.replicate 2049 0)] := by
  have size : (encodings [.raw (List.replicate 2049 0)]).length = 2049 := by
    rw [encodings, List.flatMap_singleton, Datum.encoding, List.length_replicate]
  have unserved : ¬ Served 2147483647 2049 := by
    rintro (small | ⟨first, _⟩) <;> omega
  have overruns : writeAll zeroBlocks (rtmpWbInitAt zeroBlocks 2147483647) [.raw (List.replicate 2049 0)] =
      .error .overWrite := by
    have whole := wholeInit zeroBlocks 2147483647
    have length : (rtmpWbInitAt zeroBlocks 2147483647).current + (List.replicate 2049 (0 : UInt8)).length =
        2049 := by rw [List.length_replicate]; rfl
    obtain ⟨cap, doubled, _, serves⟩ := writeAt zeroBlocks (by decide) whole (List.replicate 2049 0) (by omega)
    rw [length] at doubled
    have refused := serves.overruns (by
      rw [length, servedBlock (by decide) doubled (by decide) (by decide)]
      exact unserved)
    rw [writeAll, Datum.write, refused, Fallible.errorBind]
  refine ⟨size, overruns, fun trips => ?_⟩
  obtain ⟨_, _, ok, _⟩ := trips.reads
  rw [overruns] at ok
  cases ok

end Rushkit
