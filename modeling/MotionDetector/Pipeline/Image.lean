import MotionDetector.Types
import MotionDetector.Lib.Pieces
import MotionDetector.Ring.Frame

/-!
# Images and their stream (`middleware/image/image.c`)

A buffer that a function reads or writes through a pointer is memory indexed
from that pointer on. The color tables are a parameter.
-/

namespace MotionDetector

variable {n : ℕ}

def v4l2Fourcc (a b c d : Char) : UInt32 :=
  a.val ||| (b.val <<< 8) ||| (c.val <<< 16) ||| (d.val <<< 24)

def V4L2_PIX_FMT_YUYV : UInt32 := v4l2Fourcc 'Y' 'U' 'Y' 'V'

def V4L2_PIX_FMT_MJPEG : UInt32 := v4l2Fourcc 'M' 'J' 'P' 'G'

def V4L2_PIX_FMT_RGB888 : UInt32 := v4l2Fourcc 'R' 'G' 'B' '8'

def PIXEL_FORMAT_CAMERA : UInt32 := v4l2Fourcc 'M' 'J' 'P' 'G'

/-- `FRAME_SIZE` and `RGB_FRAME_SIZE_BYTES` with `CAMERA_USE_MJPEG`. -/
def FRAME_SIZE : ℕ := 320 * 240

abbrev Memory := ℕ → UInt8

def Frame.memory (f : Frame n) : Memory := fun i => f.bytes.getD i 0

def Frame.load (m : Memory) : Frame n := ⟨(List.range n).map m, by simp⟩

def clampUpper (x y : ℤ) : ℤ := if x > y then y else x

def clampLower (x y : ℤ) : ℤ := if x < y then y else x

/-! ### Conversion -/

structure ColorLut where
  precision : ℤ
  coefficientsY : ℕ → ℤ
  coeffecientsRV : ℕ → ℤ
  coeffecientsGU : ℕ → ℤ
  coeffecientsGV : ℕ → ℤ
  coeffecientsBU : ℕ → ℤ

def yuv2rgb (lut : ColorLut) (y u v : ℕ) : UInt8 × UInt8 × UInt8 :=
  let RR := (lut.coefficientsY y + lut.coeffecientsRV v).tdiv lut.precision
  let GG := (lut.coefficientsY y + lut.coeffecientsGU u + lut.coeffecientsGV v).tdiv lut.precision
  let BB := (lut.coefficientsY y + lut.coeffecientsBU u).tdiv lut.precision
  let clamp (x : ℤ) : UInt8 := (clampLower (clampUpper x 255) 0).toNat.toUInt8
  (clamp RR, clamp GG, clamp BB)

def storePixel (dest : Memory) (j : ℕ) (p : UInt8 × UInt8 × UInt8) : Memory :=
  Function.update (Function.update (Function.update dest j p.1) (j + 1) p.2.1) (j + 2) p.2.2

def yuyvLoop (lut : ColorLut) (size : ℕ) (src : Memory) (i j : ℕ) (dest : Memory) : Memory :=
  if i < size then
    let y_temp := (src i).toNat
    let u_temp := (src (i + 1)).toNat
    let y2_temp := (src (i + 2)).toNat
    let v_temp := (src (i + 3)).toNat
    yuyvLoop lut size src (i + 4) (j + 6)
      (storePixel (storePixel dest j (yuv2rgb lut y_temp u_temp v_temp)) (j + 3)
        (yuv2rgb lut y2_temp u_temp v_temp))
  else dest
termination_by size - i

def rgb888Convert (lut : ColorLut) (size : ℕ) (srcFmt : UInt32) (src_frame dest_frame : Memory) :
    SysResult × Memory :=
  if srcFmt = V4L2_PIX_FMT_YUYV then (.success, yuyvLoop lut size src_frame 0 0 dest_frame)
  else if srcFmt = V4L2_PIX_FMT_MJPEG ∨ srcFmt = V4L2_PIX_FMT_RGB888 then
    (.success, fun i => if i < size then src_frame i else dest_frame i)
  else (.failure, dest_frame)

def imageConvert (lut : ColorLut) (size : ℕ) (srcFmt destFmt : UInt32)
    (src_frame dest_frame : Memory) : SysResult × Memory :=
  if srcFmt = destFmt then (.ignore, dest_frame)
  else if destFmt = V4L2_PIX_FMT_RGB888 then rgb888Convert lut size srcFmt src_frame dest_frame
  else (.failure, dest_frame)

/- An MJPEG frame is copied as it is. -/
theorem imageConvert_camera (lut : ColorLut) (f g : Frame n) :
    Frame.load (imageConvert lut n PIXEL_FORMAT_CAMERA V4L2_PIX_FMT_RGB888 f.memory g.memory).2 =
      f := by
  have hne : PIXEL_FORMAT_CAMERA ≠ V4L2_PIX_FMT_RGB888 := by decide
  have hyuyv : PIXEL_FORMAT_CAMERA ≠ V4L2_PIX_FMT_YUYV := by decide
  have hmjpeg : PIXEL_FORMAT_CAMERA = V4L2_PIX_FMT_MJPEG := rfl
  apply Frame.ext_bytes
  simp only [imageConvert, rgb888Convert, hne, hyuyv, if_false, if_true, Frame.load]
  rw [if_pos (Or.inl hmjpeg)]
  apply List.ext_getElem
  · simp [f.length_eq]
  · intro i h1 h2
    have hi : i < n := by simpa using h1
    simp [Frame.memory, hi, h2]

/-! ### The image buffer -/

def imagebufferStartread (b : RingBuffer (Frame n)) : SysResult × Option ℕ :=
  if ¬ b.isEmpty then (.success, some b.readZc) else (.ignore, none)

def imagebufferEndread (b : RingBuffer (Frame n)) : SysResult × RingBuffer (Frame n) :=
  if ¬ b.isEmpty then (.success, b.incReadptr) else (.ignore, b)

def imagebufferWrite (frame : Frame n) (b : RingBuffer (Frame n)) :
    SysResult × RingBuffer (Frame n) :=
  if ¬ b.isFull then (.success, b.write frame) else (.failure, b)

section Tracks

open RingBuffer

variable {b : RingBuffer (Frame n)} {k R W : ℕ}

theorem imagebufferStartread_eq (h : Tracks b k R W) :
    imagebufferStartread b =
      if R < W then (.success, some (R % 2 ^ k)) else (.ignore, none) := by
  have hle := h.le
  simp only [imagebufferStartread, h.isEmpty_eq, readZc, h.read, decide_eq_true_eq]
  by_cases hlt : R < W
  · rw [if_pos hlt.ne, if_pos hlt]
  · rw [if_neg (by omega), if_neg hlt]

theorem imagebufferEndread_of_lt (h : Tracks b k R W) (hlt : R < W) :
    imagebufferEndread b = (.success, b.incReadptr) := by
  simp [imagebufferEndread, h.isEmpty_eq, hlt.ne]

theorem imagebufferWrite_full (h : Tracks b k R W) (hfull : W + 1 = R + 2 ^ k) (frame : Frame n) :
    imagebufferWrite frame b = (.failure, b) := by
  simp [imagebufferWrite, h.isFull_eq, hfull]

theorem imagebufferWrite_room (h : Tracks b k R W) (hroom : W + 1 < R + 2 ^ k) (frame : Frame n) :
    imagebufferWrite frame b = (.success, b.write frame) ∧ Tracks (b.write frame) k R (W + 1) ∧
      (b.write frame).contents = b.contents ++ [frame] := by
  have hother (i : ℕ) (hi : i ≠ b.writePtr.toNat) :
      Function.update b.data b.writePtr.toNat frame i = b.data i := Function.update_of_ne hi ..
  obtain ⟨htracks, hcontents⟩ := h.store hroom hother
  rw [Function.update_self] at hcontents
  exact ⟨by simp [imagebufferWrite, h.isFull_eq, hroom.ne], htracks, hcontents⟩

end Tracks

/-! ### Streaming -/

def toUint32 (z : ℤ) : ℕ := (z % 4294967296).toNat

/-- The value of a `uint32_t` as `ssize_t`, which has 32 bits. -/
def toSsize (x : ℕ) : ℤ := if x < 2147483648 then x else x - 4294967296

/-- A call of `sendto` for `request` bytes from `offset` on, with its result. -/
structure Send where
  offset : ℤ
  request : ℤ
  sizeSent : ℤ
  deriving DecidableEq, Repr

def Send.datagram (buf : List UInt8) (s : Send) : List UInt8 :=
  (buf.drop s.offset.toNat).take s.sizeSent.toNat

/-- The `do` loop of `image_save`, given the results of `sendto`: no result as
long as a call has not returned. -/
def sendLoop (size : ℕ) : ℤ → ℤ → List ℤ → Option SysResult × List Send
  | _, _, [] => (none, [])
  | wBytes, sizeBuf, sizeSent :: results =>
    let sizeBuf := clampUpper sizeBuf 1024
    let send : Send := ⟨wBytes, sizeBuf, sizeSent⟩
    if sizeSent < 0 then (some .failure, [send])
    else
      let wBytes := wBytes + sizeSent
      let sizeBuf := toSsize (toUint32 (size - wBytes))
      if toUint32 wBytes < size then
        let (ret, sends) := sendLoop size wBytes sizeBuf results
        (ret, send :: sends)
      else (some .success, [send])

structure SaveCalls where
  socket : ℤ
  sendto : List ℤ
  deriving DecidableEq, Repr

/-- The result, the static `sockfd` and the calls of `sendto`. -/
def imageSave (sockfd : ℤ) (size : ℕ) (calls : SaveCalls) : Option SysResult × ℤ × List Send :=
  if sockfd = -1 then
    if calls.socket < 0 then (some .failure, calls.socket, [])
    else
      let (ret, sends) := sendLoop size 0 (toSsize size) calls.sendto
      (ret, calls.socket, sends)
  else
    let (ret, sends) := sendLoop size 0 (toSsize size) calls.sendto
    (ret, sockfd, sends)

def Send.Accepted (s : Send) : Prop := 1 ≤ s.sizeSent ∧ s.sizeSent ≤ s.request

instance (s : Send) : Decidable s.Accepted := inferInstanceAs (Decidable (_ ∧ _))

theorem clampUpper_le (x y : ℤ) : clampUpper x y ≤ y := by
  unfold clampUpper
  split <;> omega

theorem clampUpper_le_left (x y : ℤ) : clampUpper x y ≤ x := by
  unfold clampUpper
  split <;> omega

theorem toUint32_of_nonneg {z : ℤ} (h0 : 0 ≤ z) (h : z < 2147483648) : (toUint32 z : ℤ) = z := by
  unfold toUint32
  omega

theorem toSsize_of_lt {x : ℕ} (h : x < 2147483648) : toSsize x = x := by
  simp [toSsize, h]

/-- `sendto` fails or accepts part of what it was asked for. -/
def Send.Answered (s : Send) : Prop := s.sizeSent < 0 ∨ s.Accepted

instance (s : Send) : Decidable s.Answered := inferInstanceAs (Decidable (_ ∨ _))

/-- The request is for bytes of the buffer, and for no more than 1024. -/
structure Send.Inside (size : ℕ) (s : Send) : Prop where
  offset : 0 ≤ s.offset
  pos : 0 < s.request
  small : s.request ≤ 1024
  fits : s.offset + s.request ≤ size

/-- What the socket accepted. -/
def Send.piece (s : Send) : Pieces.Piece := ⟨s.offset.toNat, s.sizeSent.toNat⟩

/-- What the loop has done when it has sent the buffer from `start` to `stop`. -/
structure Splits (size start : ℕ) (results : List ℤ) (out : Option SysResult × List Send)
    (stop : ℕ) : Prop where
  chain : Pieces.Chain start (out.2.map Send.piece) stop
  inside : ∀ s ∈ out.2, s.Inside size
  success : out.1 = some .success → stop = size
  failure : out.1 = some .failure → stop < size
  unfinished : out.1 = none → stop < size ∧ start + results.length ≤ stop

theorem sendLoop_splits {size : ℕ} (hsize : size < 2147483648) {results : List ℤ} {wBytes : ℤ}
    (h0 : 0 ≤ wBytes) (hlt : wBytes < size)
    (hans : ∀ s ∈ (sendLoop size wBytes (size - wBytes) results).2, s.Answered) :
    ∃ stop, Splits size wBytes.toNat results (sendLoop size wBytes (size - wBytes) results)
      stop := by
  induction results generalizing wBytes with
  | nil =>
    refine ⟨wBytes.toNat, .nil _, nofun, nofun, nofun, fun _ => ⟨?_, le_rfl⟩⟩
    omega
  | cons sizeSent results ih =>
    have hreq := clampUpper_le (size - wBytes) 1024
    have hleft := clampUpper_le_left (size - wBytes) 1024
    have hpos : 0 < clampUpper (size - wBytes) 1024 := by
      unfold clampUpper
      split
      · omega
      · omega
    have hinside : Send.Inside size ⟨wBytes, clampUpper (size - wBytes) 1024, sizeSent⟩ := by
      refine ⟨h0, hpos, hreq, ?_⟩
      simp only
      omega
    unfold sendLoop at hans ⊢
    simp only at hans ⊢
    by_cases hneg : sizeSent < 0
    · -- a send that failed hands on an empty piece
      have hpiece : Send.piece ⟨wBytes, clampUpper (size - wBytes) 1024, sizeSent⟩ =
          ⟨wBytes.toNat, 0⟩ := by
        rw [Send.piece, Int.toNat_of_nonpos hneg.le]
      rw [if_pos hneg]
      refine ⟨wBytes.toNat, ?_, ?_, nofun, fun _ => ?_, nofun⟩
      · rw [List.map_singleton, hpiece]
        exact .cons rfl (.nil _)
      · simpa using hinside
      · omega
    · simp only [if_neg hneg] at hans ⊢
      have haccepted : Send.Accepted ⟨wBytes, clampUpper (size - wBytes) 1024, sizeSent⟩ := by
        have hfirst : Send.Answered ⟨wBytes, clampUpper (size - wBytes) 1024, sizeSent⟩ := by
          apply hans
          split
          · exact List.mem_cons_self
          · exact List.mem_cons_self
        exact hfirst.resolve_left hneg
      obtain ⟨hone, hsent⟩ := haccepted
      simp only at hone hsent
      have hnat : (wBytes + sizeSent).toNat = wBytes.toNat + sizeSent.toNat := by omega
      have hw := toUint32_of_nonneg (z := wBytes + sizeSent) (by omega) (by omega)
      by_cases hmore : toUint32 (wBytes + sizeSent) < size
      · have hrest := toUint32_of_nonneg (z := size - (wBytes + sizeSent)) (by omega) (by omega)
        rw [toSsize_of_lt (by omega), hrest] at hans ⊢
        simp only [if_pos hmore] at hans ⊢
        have hnext : 0 ≤ wBytes + sizeSent := by omega
        obtain ⟨stop, htail⟩ := ih hnext (by omega) fun s hs => hans s (List.mem_cons_of_mem _ hs)
        have hchain := htail.chain
        rw [hnat] at hchain
        refine ⟨stop, .cons rfl hchain, ?_, htail.success, htail.failure, fun hnone => ?_⟩
        · intro s hs
          rcases List.mem_cons.mp hs with rfl | hs
          · exact hinside
          · exact htail.inside s hs
        · obtain ⟨hstop, hlen⟩ := htail.unfinished hnone
          refine ⟨hstop, ?_⟩
          rw [List.length_cons]
          omega
      · simp only [if_neg hmore]
        refine ⟨size, ?_, ?_, fun _ => rfl, nofun, nofun⟩
        · have hend : wBytes.toNat + sizeSent.toNat = size := by omega
          exact .cons rfl (hend ▸ .nil _)
        · simpa using hinside

theorem sendLoop_request {size : ℕ} {results : List ℤ} {wBytes sizeBuf : ℤ} :
    ∀ s ∈ (sendLoop size wBytes sizeBuf results).2, s.request ≤ 1024 := by
  induction results generalizing wBytes sizeBuf with
  | nil => simp [sendLoop]
  | cons sizeSent results ih =>
    have hfirst := clampUpper_le sizeBuf 1024
    unfold sendLoop
    simp only
    split
    · simpa using hfirst
    · split
      · intro s hs
        rcases List.mem_cons.mp hs with rfl | hs
        · exact hfirst
        · exact ih s hs
      · simpa using hfirst

theorem imageSave_request (sockfd : ℤ) (size : ℕ) (calls : SaveCalls) :
    ∀ s ∈ (imageSave sockfd size calls).2.2, s.request ≤ 1024 := by
  unfold imageSave
  split
  · split
    · simp
    · exact sendLoop_request
  · exact sendLoop_request

/- The call of `image_save` as far as its loop, which runs once a socket is open. -/
theorem imageSave_splits {size : ℕ} (hpos : 0 < size) (hsize : size < 2147483648) {sockfd : ℤ}
    {calls : SaveCalls} (hans : ∀ s ∈ (imageSave sockfd size calls).2.2, s.Answered) :
    (imageSave sockfd size calls).1 = some .failure ∧ (imageSave sockfd size calls).2.2 = [] ∨
      ∃ stop, Splits size 0 calls.sendto
        ((imageSave sockfd size calls).1, (imageSave sockfd size calls).2.2) stop := by
  have hloop (hans : ∀ s ∈ (sendLoop size 0 (toSsize size) calls.sendto).2, s.Answered) :
      ∃ stop, Splits size 0 calls.sendto (sendLoop size 0 (toSsize size) calls.sendto) stop := by
    have hstart : toSsize size = (size : ℤ) - 0 := by
      rw [toSsize_of_lt hsize, Int.sub_zero]
    rw [hstart] at hans ⊢
    exact sendLoop_splits hsize le_rfl (by omega) hans
  unfold imageSave at hans ⊢
  by_cases hopen : sockfd = -1
  · by_cases hsocket : calls.socket < 0
    · simp [hopen, hsocket]
    · simp only [if_pos hopen, if_neg hsocket] at hans ⊢
      exact .inr (hloop hans)
  · simp only [if_neg hopen] at hans ⊢
    exact .inr (hloop hans)

theorem imageSave_datagrams {size : ℕ} (hpos : 0 < size) (hsize : size < 2147483648)
    {buf : List UInt8} (hbuf : buf.length = size) {sockfd fd : ℤ} {calls : SaveCalls}
    {sends : List Send} (hsave : imageSave sockfd size calls = (some .success, fd, sends))
    (hacc : ∀ s ∈ sends, s.Accepted) :
    (sends.map fun s => s.datagram buf).flatten = buf := by
  have hans : ∀ s ∈ (imageSave sockfd size calls).2.2, s.Answered := by
    rw [hsave]
    exact fun s hs => .inr (hacc s hs)
  have hsplits := imageSave_splits hpos hsize hans
  rw [hsave] at hsplits
  rcases hsplits with ⟨hfail, -⟩ | ⟨stop, hsplit⟩
  · cases hfail
  · have hflat := hsplit.chain.flatten_zero buf
    rw [hsplit.success rfl, List.map_map, ← hbuf, List.take_length] at hflat
    exact hflat

end MotionDetector
