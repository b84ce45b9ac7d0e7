import Mathlib.Tactic

/-!
# Frames

The header of a message is four words of XDR, the high byte first. The other side cuts the bytes it receives into frames
by their headers.
-/

namespace OpenLava.Header

open List

abbrev Bytes := List UInt8

structure LSFHeader where
  (refCode opCode : UInt16)
  length : UInt32
  (version reserved : UInt16)
  reserved0 : UInt32
  deriving DecidableEq

def LSF_HEADER_LEN : Nat := 16

def xdr_u_int (w : Nat) : Bytes :=
  [UInt8.ofNat (w >>> 24), UInt8.ofNat (w >>> 16), UInt8.ofNat (w >>> 8), UInt8.ofNat w]

def encodeHdr (h : LSFHeader) : List Nat :=
  [h.refCode.toNat <<< 16 ||| h.opCode.toNat, h.length.toNat, h.version.toNat <<< 16 ||| h.reserved.toNat,
    h.reserved0.toNat]

def xdr_packLSFHeader (h : LSFHeader) : Bytes := (encodeHdr h).flatMap xdr_u_int

def getWord (bs : Bytes) (i : Nat) : Nat :=
  (bs.getD (4 * i) 0).toNat * 2 ^ 24 + (bs.getD (4 * i + 1) 0).toNat * 2 ^ 16 + (bs.getD (4 * i + 2) 0).toNat * 2 ^ 8 +
    (bs.getD (4 * i + 3) 0).toNat

/-- `xdr_LSFHeader`, decoding. -/
def decodeHdr (bs : Bytes) : LSFHeader where
  refCode := UInt16.ofNat (getWord bs 0 >>> 16)
  opCode := UInt16.ofNat (getWord bs 0 &&& 0xFFFF)
  length := UInt32.ofNat (getWord bs 1)
  version := UInt16.ofNat (getWord bs 2 >>> 16)
  reserved := UInt16.ofNat (getWord bs 2 &&& 0xFFFF)
  reserved0 := UInt32.ofNat (getWord bs 3)

theorem packLSFHeader_length (h : LSFHeader) : (xdr_packLSFHeader h).length = LSF_HEADER_LEN := rfl

theorem u_int_bytes (hw : w < 2 ^ 32) :
    (UInt8.ofNat (w >>> 24)).toNat * 2 ^ 24 + (UInt8.ofNat (w >>> 16)).toNat * 2 ^ 16 +
      (UInt8.ofNat (w >>> 8)).toNat * 2 ^ 8 + (UInt8.ofNat w).toNat = w := by
  simp only [UInt8.toNat_ofNat', Nat.shiftRight_eq_div_pow]
  omega

theorem halves_lt (hi lo : UInt16) : hi.toNat <<< 16 ||| lo.toNat < 2 ^ 32 := by
  have hhi := hi.toNat_lt
  have hlo := lo.toNat_lt
  rw [← Nat.shiftLeft_add_eq_or_of_lt hlo, Nat.shiftLeft_eq]
  omega

theorem halves_hi (hi lo : UInt16) : UInt16.ofNat ((hi.toNat <<< 16 ||| lo.toNat) >>> 16) = hi := by
  have hlo := lo.toNat_lt
  rw [← Nat.shiftLeft_add_eq_or_of_lt hlo, Nat.shiftLeft_eq, Nat.shiftRight_eq_div_pow]
  have hd : (hi.toNat * 2 ^ 16 + lo.toNat) / 2 ^ 16 = hi.toNat := by omega
  rw [hd, UInt16.ofNat_toNat]

theorem halves_lo (hi lo : UInt16) : UInt16.ofNat ((hi.toNat <<< 16 ||| lo.toNat) &&& 0xFFFF) = lo := by
  have hlo := lo.toNat_lt
  have hmod : (hi.toNat * 2 ^ 16 + lo.toNat) % 2 ^ 16 = lo.toNat := by omega
  rw [← Nat.shiftLeft_add_eq_or_of_lt hlo, Nat.shiftLeft_eq,
    show (0xFFFF : Nat) = 2 ^ 16 - 1 from rfl, Nat.and_two_pow_sub_one_eq_mod, hmod, UInt16.ofNat_toNat]

theorem decode_pack (h : LSFHeader) (rest : Bytes) : decodeHdr (xdr_packLSFHeader h ++ rest) = h := by
  have hw0 : getWord (xdr_packLSFHeader h ++ rest) 0 = h.refCode.toNat <<< 16 ||| h.opCode.toNat :=
    u_int_bytes (halves_lt ..)
  have hw1 : getWord (xdr_packLSFHeader h ++ rest) 1 = h.length.toNat := u_int_bytes h.length.toNat_lt
  have hw2 : getWord (xdr_packLSFHeader h ++ rest) 2 = h.version.toNat <<< 16 ||| h.reserved.toNat :=
    u_int_bytes (halves_lt ..)
  have hw3 : getWord (xdr_packLSFHeader h ++ rest) 3 = h.reserved0.toNat := u_int_bytes h.reserved0.toNat_lt
  simp only [decodeHdr, hw0, hw1, hw2, hw3, halves_hi, halves_lo, UInt32.ofNat_toNat]

structure Frame where
  hdr : LSFHeader
  payload : Bytes
  deriving DecidableEq

def Frame.bytes (f : Frame) : Bytes := xdr_packLSFHeader f.hdr ++ f.payload

def Frame.Sized (f : Frame) : Prop := f.hdr.length.toNat = f.payload.length

/-- The complete frames at the front of a stream, at most `fuel` of them. -/
def cutFrames : Nat → Bytes → List Frame
  | 0, _ => []
  | fuel + 1, bs =>
    if bs.length < LSF_HEADER_LEN then []
    else
      let hdr := decodeHdr bs
      let body := bs.drop LSF_HEADER_LEN
      if body.length < hdr.length.toNat then []
      else ⟨hdr, body.take hdr.length.toNat⟩ :: cutFrames fuel (body.drop hdr.length.toNat)

def frames (bs : Bytes) : List Frame := cutFrames bs.length bs

theorem Frame.bytes_length (f : Frame) : f.bytes.length = LSF_HEADER_LEN + f.payload.length := by
  rw [Frame.bytes, length_append, packLSFHeader_length]

theorem cutFrames_cons (hs : f.Sized) (fuel : Nat) (rest : Bytes) :
    cutFrames (fuel + 1) (f.bytes ++ rest) = f :: cutFrames fuel rest := by
  have hl : ¬ (f.bytes ++ rest).length < LSF_HEADER_LEN := by
    rw [length_append, f.bytes_length]
    omega
  have hdr : decodeHdr (f.bytes ++ rest) = f.hdr := by
    rw [Frame.bytes, append_assoc, decode_pack]
  have hb : (f.bytes ++ rest).drop LSF_HEADER_LEN = f.payload ++ rest := by
    rw [Frame.bytes, append_assoc, ← packLSFHeader_length f.hdr, drop_left]
  have hsize : f.hdr.length.toNat = f.payload.length := hs
  simp only [cutFrames, if_neg hl, hdr, hb, hsize]
  simp

def Frame.Begun (f : Frame) (part : Bytes) : Prop := part <+: f.bytes ∧ part.length < f.bytes.length

theorem cutFrames_begun {f : Frame} (hsiz : f.Sized) {part : Bytes} (hpart : f.Begun part) (fuel : Nat) :
    cutFrames fuel part = [] := by
  obtain ⟨hs, hsho⟩ := hpart
  have hsize : f.hdr.length.toNat = f.payload.length := hsiz
  cases fuel with
  | zero => rfl
  | succ fuel =>
    unfold cutFrames
    split
    · rfl
    · next hl =>
      have hpack : xdr_packLSFHeader f.hdr <+: part := by
        refine prefix_of_prefix_length_le (prefix_append ..) hs ?_
        rw [packLSFHeader_length]
        omega
      obtain ⟨tail, rfl⟩ := hpack
      have hr : ((xdr_packLSFHeader f.hdr ++ tail).drop LSF_HEADER_LEN) = tail := by
        rw [← packLSFHeader_length f.hdr, drop_left]
      rw [f.bytes_length, length_append, packLSFHeader_length] at hsho
      simp only [decode_pack, hr, hsize]
      rw [if_pos (by omega)]

theorem cutFrames_all {fs : List Frame} (hs : ∀ f ∈ fs, f.Sized) {part : Bytes}
    (hpart : ∀ fuel, cutFrames fuel part = []) {fuel : Nat} (hf : fs.length ≤ fuel) :
    cutFrames fuel (fs.flatMap Frame.bytes ++ part) = fs := by
  induction fs generalizing fuel with
  | nil => exact hpart fuel
  | cons f fs ih =>
    obtain ⟨fuel, rfl⟩ : ∃ n, fuel = n + 1 := ⟨fuel - 1, by simp at hf; omega⟩
    rw [flatMap_cons, append_assoc, cutFrames_cons (hs f (by simp)),
      ih (fun g hg => hs g (by simp [hg])) (by simpa using hf)]

theorem frames_append {fs : List Frame} (hs : ∀ f ∈ fs, f.Sized) {part : Bytes}
    (hpart : part = [] ∨ ∃ f : Frame, f.Sized ∧ f.Begun part) : frames (fs.flatMap Frame.bytes ++ part) = fs := by
  have hn : ∀ fuel, cutFrames fuel part = [] := by
    rcases hpart with rfl | ⟨f, hf, hb⟩
    · intro fuel
      cases fuel <;> rfl
    · exact cutFrames_begun hf hb
  refine cutFrames_all hs hn ?_
  have hl : fs.length ≤ (fs.flatMap Frame.bytes).length := by
    clear hs hpart hn
    induction fs with
    | nil => simp
    | cons f fs ih =>
      rw [flatMap_cons, length_append, f.bytes_length, length_cons]
      have : 0 < LSF_HEADER_LEN := by decide
      omega
  rw [length_append]
  omega

end OpenLava.Header
