import OpenLava.Lib.Header

/-!
# Messages and arrays in a memory stream

`xdr_encodeMsg` writes the header when the length is known; `xdr_arrayElement` does the same with the size of an
element. The encoder of a body or of an element is known by the bytes that it appends.
-/

namespace OpenLava.Xdr

open List Header

/-- A stream of `xdrmem_create`, whose size is an `u_int`. -/
structure Stream where
  buf : Bytes
  pos : Nat
  size : buf.length < 2 ^ 32

/-- `XDR_SETPOS`; that it may fail is not looked at. -/
def Stream.setpos (s : Stream) (pos : Nat) : Stream := if pos ≤ s.buf.length then { s with pos } else s

def put (bs : Bytes) (s : Stream) : Option Stream :=
  if h : s.pos + bs.length ≤ s.buf.length then
    some {
      buf := s.buf.take s.pos ++ (bs ++ s.buf.drop (s.pos + bs.length))
      pos := s.pos + bs.length
      size := by
        have := s.size
        simp only [length_append, length_take, length_drop]
        omega }
  else none

def get (n : Nat) (s : Stream) : Option (Bytes × Stream) :=
  if s.pos + n ≤ s.buf.length then some ((s.buf.drop s.pos).take n, { s with pos := s.pos + n }) else none

def OPENLAVA_VERSION : UInt16 := 20

def NET_INTSIZE_ : Nat := 4

/-- The bytes of `auth` and of `data`, where they are not null. -/
def xdr_encodeMsg (data : Option Bytes) (hdr : LSFHeader) (auth : Option Bytes) (s : Stream) :
    Option (LSFHeader × Stream) := do
  let s ← put (auth.getD []) (s.setpos LSF_HEADER_LEN)
  let s ← put (data.getD []) s
  let len := s.pos
  let hdr := { hdr with version := OPENLAVA_VERSION, length := UInt32.ofNat (len - LSF_HEADER_LEN) }
  let s ← put (xdr_packLSFHeader hdr) (s.setpos 0)
  return (hdr, s.setpos len)

/-- `xdr_arrayElement`, encoding. -/
def encodeElement (xdr_func : Stream → Option Stream) (xdrs : Stream) : Option Stream := do
  let pos := xdrs.pos
  let s ← xdr_func (xdrs.setpos (pos + NET_INTSIZE_))
  let nextElementOffset := s.pos - pos
  let s ← put (xdr_u_int nextElementOffset) (s.setpos pos)
  return s.setpos (pos + nextElementOffset)

/-- `xdr_arrayElement`, decoding. -/
def decodeElement {α : Type} (xdr_func : Stream → Option (α × Stream)) (xdrs : Stream) : Option (α × Stream) := do
  let pos := xdrs.pos
  let (word, s) ← get NET_INTSIZE_ xdrs
  let (a, s) ← xdr_func s
  return (a, s.setpos ((pos + getWord word 0) % 2 ^ 32))

structure At (pre rest : Bytes) (s : Stream) : Prop where
  buf : s.buf = pre ++ rest
  pos : s.pos = pre.length

variable {pre rest bs cs : Bytes} {s : Stream}

theorem setpos_at (h : s.buf = pre ++ rest) (hpos : pos = pre.length) : At pre rest (s.setpos pos) := by
  rw [Stream.setpos, if_pos (by rw [h, hpos, length_append]; omega)]
  exact ⟨h, hpos⟩

theorem put_at (bs : Bytes) (h : At pre rest s) (hfit : bs.length ≤ rest.length) :
    ∃ s', put bs s = some s' ∧ At (pre ++ bs) (rest.drop bs.length) s' := by
  have hr : s.pos + bs.length ≤ s.buf.length := by
    rw [h.buf, h.pos, length_append]
    omega
  refine ⟨_, dif_pos hr, ?_, by simp [h.pos]⟩
  simp [h.buf, h.pos, drop_append, append_assoc]

theorem get_at (h : At pre (bs ++ rest) s) (hk : k ≤ bs.length) :
    get k s = some (bs.take k, { s with pos := s.pos + k }) := by
  have hr : (s.buf.drop s.pos).take k = bs.take k := by rw [h.buf, h.pos, drop_left, take_append_of_le_length hk]
  rw [get, if_pos (by rw [h.buf, h.pos, length_append, length_append]; omega), hr]

def Writes (f : Stream → Option Stream) (bs : Bytes) : Prop :=
  ∀ ⦃pre rest s⦄, At pre rest s → bs.length ≤ rest.length → ∃ s', f s = some s' ∧ At (pre ++ bs) (rest.drop bs.length) s'

theorem Writes.comp (hf : Writes f bs) (hg : Writes g cs) : Writes (fun s => (f s).bind g) (bs ++ cs) := by
  intro pre rest s hat hfit
  rw [length_append] at hfit
  obtain ⟨s1, hfs, hat1⟩ := hf hat (by omega)
  obtain ⟨s2, hgs, hat2⟩ := hg hat1 (by rw [length_drop]; omega)
  refine ⟨s2, by simp [hfs, hgs], ?_⟩
  rwa [append_assoc, drop_drop, ← length_append] at hat2

theorem Writes.patch (h : Writes f bs) (hb : s.buf = pre ++ rest) (hfit : k + bs.length ≤ rest.length) :
    ∃ s1, f (s.setpos (pre.length + k)) = some s1 ∧ s1.pos = pre.length + (k + bs.length) ∧
      ∀ room : Bytes, room.length = k → ∃ s2, put room (s1.setpos pre.length) = some s2 ∧
        At (pre ++ (room ++ bs)) (rest.drop (k + bs.length)) (s2.setpos (pre.length + (k + bs.length))) := by
  have hr : (rest.take k).length = k := by
    rw [length_take]
    omega
  have hs : At (pre ++ rest.take k) (rest.drop k) (s.setpos (pre.length + k)) :=
    setpos_at (by rw [hb, append_assoc, take_append_drop]) (by rw [length_append, hr])
  obtain ⟨s1, hf, hat1⟩ := h hs (by rw [length_drop]; omega)
  rw [drop_drop] at hat1
  refine ⟨s1, hf, by rw [hat1.pos, length_append, length_append, hr, Nat.add_assoc], fun room hl => ?_⟩
  have hb : At pre (rest.take k ++ (bs ++ rest.drop (k + bs.length))) (s1.setpos pre.length) :=
    setpos_at (by rw [hat1.buf, append_assoc, append_assoc]) rfl
  obtain ⟨s2, hput, hat2⟩ := put_at room hb (by rw [length_append, hr, hl]; omega)
  rw [hl, drop_left' hr] at hat2
  refine ⟨s2, hput, setpos_at (by rw [hat2.buf, append_assoc, append_assoc, append_assoc]) ?_⟩
  rw [length_append, length_append, hl]

/-- The header read from a message that fits is the one given. -/
theorem encodeMsg_header (s : Stream) (hdr : LSFHeader) (auth data : Option Bytes)
    (hfit : LSF_HEADER_LEN + (auth.getD []).length + (data.getD []).length ≤ s.buf.length) :
    ∃ hdr' s', xdr_encodeMsg data hdr auth s = some (hdr', s') ∧ decodeHdr s'.buf = hdr' ∧
      hdr' = { hdr with version := OPENLAVA_VERSION, length := hdr'.length } ∧
      hdr'.length.toNat = (auth.getD []).length + (data.getD []).length ∧
      s'.pos = LSF_HEADER_LEN + (auth.getD []).length + (data.getD []).length ∧
      (s'.buf.drop LSF_HEADER_LEN).take (s'.pos - LSF_HEADER_LEN) = auth.getD [] ++ data.getD [] := by
  unfold xdr_encodeMsg
  generalize auth.getD [] = a, data.getD [] = d at hfit ⊢
  have hs := s.size
  have hb : Writes (fun s => (put a s).bind (put d)) (a ++ d) := Writes.comp (fun _ _ _ => put_at a) fun _ _ _ => put_at d
  obtain ⟨s1, hput, hpos, hf⟩ := hb.patch (show s.buf = [] ++ s.buf from rfl) (k := LSF_HEADER_LEN)
    (by rw [length_append]; exact Nat.add_assoc .. ▸ hfit)
  rw [length_nil, Nat.zero_add, length_append] at hpos
  let hdr' := { hdr with version := OPENLAVA_VERSION, length := UInt32.ofNat (s1.pos - LSF_HEADER_LEN) }
  obtain ⟨s2, hput', hat⟩ := hf (xdr_packLSFHeader hdr') (packLSFHeader_length hdr')
  rw [length_append, length_nil, Nat.zero_add, ← hpos, nil_append] at hat
  have hd : decodeHdr (s2.setpos s1.pos).buf = hdr' := by rw [hat.buf, append_assoc, decode_pack]
  obtain ⟨s0, ha, hdata⟩ := Option.bind_eq_some_iff.mp hput
  refine ⟨hdr', s2.setpos s1.pos, ?_, hd, rfl, ?_, ?_, ?_⟩
  · rw [length_nil, Nat.zero_add] at ha
    simp only [ha, hdata, Option.bind_eq_bind, Option.bind_some]
    exact Option.bind_eq_some_iff.mpr ⟨s2, hput', rfl⟩
  · rw [UInt32.toNat_ofNat', hpos]
    omega
  · rw [hat.pos, length_append, packLSFHeader_length, length_append, Nat.add_assoc]
  · rw [hat.buf, hat.pos, append_assoc, ← packLSFHeader_length hdr', drop_left, length_append, Nat.add_sub_cancel_left,
      take_left]

/-- Four bytes of data in a buffer of twenty. -/
theorem encodeMsg_header_four : ∃ hdr' s', xdr_encodeMsg (some [1, 2, 3, 4]) ⟨1, 2, 0, 0, 5, 6⟩ none
    ⟨replicate 20 0, 0, by decide⟩ = some (hdr', s') ∧ s'.pos = 20 := by
  obtain ⟨hdr', s', he, -, -, -, hpos, -⟩ :=
    encodeMsg_header ⟨replicate 20 0, 0, by decide⟩ ⟨1, 2, 0, 0, 5, 6⟩ none (some [1, 2, 3, 4]) (by decide)
  exact ⟨hdr', s', he, hpos⟩

/-- Decoding leaves the bytes, and may stop anywhere in them. -/
def Reads {α : Type} (f : Stream → Option (α × Stream)) (bs : Bytes) (a : α) : Prop :=
  ∀ ⦃pre rest s⦄, At pre (bs ++ rest) s → ∃ s', f s = some (a, s') ∧ s'.buf = s.buf

def element (bs : Bytes) : Bytes := xdr_u_int (NET_INTSIZE_ + bs.length) ++ bs

theorem u_int_length (w : Nat) : (xdr_u_int w).length = NET_INTSIZE_ := rfl

theorem element_length (bs : Bytes) : (element bs).length = NET_INTSIZE_ + bs.length := by
  rw [element, length_append, u_int_length]

theorem Writes.element (h : Writes f bs) : Writes (encodeElement f) (element bs) := by
  intro pre rest s hat hfit
  rw [element_length] at hfit
  obtain ⟨s1, hf, hpos, hfill⟩ := h.patch hat.buf hfit
  obtain ⟨s2, hput, hat2⟩ := hfill _ (u_int_length (NET_INTSIZE_ + bs.length))
  rw [← hat.pos] at hf hpos hput hat2
  rw [element_length]
  refine ⟨_, ?_, hat2⟩
  simp [encodeElement, hf, hpos, hput]

theorem writes_foldlM {enc : α → Stream → Option Stream} {bytes : α → Bytes}
    (h : ∀ a, Writes (enc a) (bytes a)) (as : List α) : Writes (as.foldlM fun s a => enc a s) (as.flatMap bytes) := by
  induction as with
  | nil => exact fun _ _ _ hat _ => ⟨_, rfl, by simpa using hat⟩
  | cons a as ih => exact (h a).comp ih

/-- The decoder of an element ends where the offset says, wherever it has stopped. -/
theorem Reads.element (h : Reads f bs a)
    (hat : At pre (element bs ++ rest) s) : ∃ s', decodeElement f s = some (a, s') ∧ At (pre ++ element bs) rest s' := by
  have hw : At (pre ++ xdr_u_int (NET_INTSIZE_ + bs.length)) (bs ++ rest) { s with pos := s.pos + NET_INTSIZE_ } := by
    refine ⟨by rw [hat.buf, Xdr.element, append_assoc, append_assoc], ?_⟩
    rw [length_append, u_int_length, hat.pos]
  have hlt : s.pos + (NET_INTSIZE_ + bs.length) < 2 ^ 32 := by
    have hs := s.size
    rw [hat.buf, length_append, length_append, element_length] at hs
    rw [hat.pos]
    omega
  have hg := get_at hat (k := NET_INTSIZE_) (by rw [element_length]; omega)
  rw [Xdr.element, take_left' (u_int_length _)] at hg
  obtain ⟨s1, hf, hb⟩ := h hw
  refine ⟨s1.setpos (s.pos + (NET_INTSIZE_ + bs.length)), ?_, ?_⟩
  · have ho : getWord (xdr_u_int (NET_INTSIZE_ + bs.length)) 0 = NET_INTSIZE_ + bs.length := u_int_bytes (by omega)
    simp only [decodeElement, hg, hf, Option.bind_eq_bind, Option.bind_some, ho, Nat.mod_eq_of_lt hlt, Option.pure_def]
  · refine setpos_at (by rw [hb, hat.buf, append_assoc]) ?_
    rw [length_append, element_length, hat.pos]

/-- A loop that decodes elements. -/
def decodeAll {α V : Type} (xdr_func : V → Stream → Option (α × Stream)) : List V → Stream → Option (List α × Stream)
  | [], s => some ([], s)
  | v :: vs, s => do
    let (a, s) ← decodeElement (xdr_func v) s
    let (as, s) ← decodeAll xdr_func vs s
    return (a :: as, s)

def FitAll {α V : Type} (fit : α → V → Prop) : List α → List V → Prop
  | _, [] => True
  | [], _ :: _ => False
  | a :: as, v :: vs => fit a v ∧ FitAll fit as vs

theorem decodeAll_reads {dec : V → Stream → Option (α × Stream)} {bytes : α → Bytes} {cut : α → V → α}
    {fit : α → V → Prop} (h : ∀ a v, fit a v → Reads (dec v) (bytes a) (cut a v)) {as : List α} {vs : List V}
    (hfit : FitAll fit as vs) (hat : At pre ((as.flatMap fun a => element (bytes a)) ++ rest) s) :
    ∃ s', decodeAll dec vs s = some (zipWith cut as vs, s') ∧
      s'.buf = s.buf ∧ s'.pos = s.pos + ((as.take vs.length).flatMap fun a => element (bytes a)).length := by
  induction vs generalizing as pre s with
  | nil => exact ⟨s, by simp [decodeAll], rfl, by simp⟩
  | cons v vs ih =>
    cases as with
    | nil => exact hfit.elim
    | cons a as =>
      rw [flatMap_cons, append_assoc] at hat
      obtain ⟨s1, hd, hat1⟩ := (h a v hfit.1).element hat
      obtain ⟨s2, ha, hb, hpos⟩ := ih hfit.2 hat1
      refine ⟨s2, by simp [decodeAll, hd, ha], ?_, ?_⟩
      · rw [hb, hat1.buf, hat.buf, append_assoc]
      · rw [hpos, hat1.pos, hat.pos, length_cons, take_succ_cons, flatMap_cons, length_append, length_append, Nat.add_assoc]

/-- An element with up to `n` levels of arrays: fields, and between or behind them elements of nested arrays. -/
def Elem : Nat → Type
  | 0 => Empty
  | n + 1 => List (Bytes ⊕ Elem n)

def partBytes {α : Type} (bytes : α → Bytes) : Bytes ⊕ α → Bytes
  | .inl bs => bs
  | .inr a => element (bytes a)

def Elem.bytes : (n : Nat) → Elem n → Bytes
  | n + 1, parts => parts.flatMap (partBytes (bytes n))

def encodePart {α : Type} (enc : α → Stream → Option Stream) : Bytes ⊕ α → Stream → Option Stream
  | .inl bs => put bs
  | .inr a => encodeElement (enc a)

def Elem.encode : (n : Nat) → Elem n → Stream → Option Stream
  | n + 1, parts => fun s => parts.foldlM (fun s part => encodePart (encode n) part s) s

/-- How much a decoder reads: bytes of the fields, and of the elements of nested arrays in their turn. -/
def View : Nat → Type
  | 0 => Empty
  | n + 1 => List (Nat ⊕ View n)

/-- It reads whole fields, but the last one it reads may be cut. -/
def FitParts {α V : Type} (fit : α → V → Prop) : List (Bytes ⊕ α) → List (Nat ⊕ V) → Prop
  | _, [] => True
  | .inl bs :: parts, .inl k :: vs => k ≤ bs.length ∧ (vs ≠ [] → k = bs.length) ∧ FitParts fit parts vs
  | .inr a :: parts, .inr v :: vs => fit a v ∧ FitParts fit parts vs
  | _, _ => False

def View.Fits : (n : Nat) → Elem n → View n → Prop
  | n + 1, parts, vs => FitParts (Fits n) parts vs

def decodeParts {α V : Type} (xdr_func : V → Stream → Option (α × Stream)) :
    List (Nat ⊕ V) → Stream → Option (List (Bytes ⊕ α) × Stream)
  | [], s => some ([], s)
  | .inl k :: vs, s => do
    let (bs, s) ← get k s
    let (parts, s) ← decodeParts xdr_func vs s
    return (.inl bs :: parts, s)
  | .inr v :: vs, s => do
    let (a, s) ← decodeElement (xdr_func v) s
    let (parts, s) ← decodeParts xdr_func vs s
    return (.inr a :: parts, s)

def View.decode : (n : Nat) → View n → Stream → Option (Elem n × Stream)
  | n + 1, vs, s => decodeParts (decode n) vs s

def cutPart {α V : Type} (cut : α → V → α) : Bytes ⊕ α → Nat ⊕ V → Bytes ⊕ α
  | .inl bs, .inl k => .inl (bs.take k)
  | .inr a, .inr v => .inr (cut a v)
  | part, _ => part

def Elem.cut : (n : Nat) → Elem n → View n → Elem n
  | n + 1, parts, vs => zipWith (cutPart (cut n)) parts vs

theorem Elem.encode_writes (n : Nat) (e : Elem n) : Writes (e.encode n) (e.bytes n) := by
  induction n with
  | zero => exact e.elim
  | succ n ih =>
    refine writes_foldlM (fun part => ?_) e
    cases part with
    | inl bs => exact fun _ _ _ => put_at bs
    | inr a => exact (ih a).element

theorem decodeParts_reads {dec : V → Stream → Option (α × Stream)} {bytes : α → Bytes} {cut : α → V → α}
    {fit : α → V → Prop} (h : ∀ a v, fit a v → Reads (dec v) (bytes a) (cut a v)) {parts : List (Bytes ⊕ α)}
    {vs : List (Nat ⊕ V)} (hfit : FitParts fit parts vs) :
    Reads (decodeParts dec vs) (parts.flatMap (partBytes bytes)) (zipWith (cutPart cut) parts vs) := by
  intro pre rest s hat
  induction vs generalizing parts pre s with
  | nil => exact ⟨s, by simp [decodeParts], rfl⟩
  | cons v vs ih =>
    cases parts with
    | nil => cases v <;> exact hfit.elim
    | cons part parts =>
      rw [flatMap_cons, append_assoc] at hat
      cases part with
      | inl bs =>
        cases v with
        | inr v => exact hfit.elim
        | inl k =>
          obtain ⟨hk, hall, hfit⟩ := hfit
          have hg : get k s = some (bs.take k, { s with pos := s.pos + k }) := get_at hat hk
          cases vs with
          | nil => exact ⟨{ s with pos := s.pos + k }, by simp [decodeParts, hg, cutPart], rfl⟩
          | cons v' vs =>
            have hnext : At (pre ++ bs) (parts.flatMap (partBytes bytes) ++ rest) { s with pos := s.pos + k } :=
              ⟨by rw [hat.buf, append_assoc]; rfl, by rw [hall (cons_ne_nil v' vs), hat.pos, length_append]⟩
            obtain ⟨s', hd, hb⟩ := ih hfit hnext
            exact ⟨s', by simp [decodeParts, hg, hd, cutPart], hb⟩
      | inr a =>
        cases v with
        | inl k => exact hfit.elim
        | inr v =>
          obtain ⟨s1, hd1, hat1⟩ := (h a v hfit.1).element hat
          obtain ⟨s', hd, hb⟩ := ih hfit.2 hat1
          refine ⟨s', by simp [decodeParts, hd1, hd, cutPart], hb.trans ?_⟩
          rw [hat1.buf, hat.buf, append_assoc]
          rfl

theorem View.decode_reads (n : Nat) (e : Elem n) (v : View n) (h : v.Fits n e) : Reads (v.decode n) (e.bytes n) (e.cut n v) := by
  induction n with
  | zero => exact e.elim
  | succ n ih => exact decodeParts_reads ih h

/-- The array of elements that `encode` writes. -/
def elements (n : Nat) (es : List (Elem n)) : Bytes := es.flatMap fun e => element (e.bytes n)

/-- Decoders that read the front of every element get it, and stand at the next. -/
theorem arrayElement_decodes (n : Nat) (es : List (Elem n)) (s : Stream)
    (hfit : s.pos + (elements n es).length ≤ s.buf.length) :
    ∃ t, es.foldlM (fun s e => encodeElement (e.encode n) s) s = some t ∧ t.pos = s.pos + (elements n es).length ∧
      ∀ vs, FitAll (View.Fits n) es vs → ∃ u, decodeAll (View.decode n) vs (t.setpos s.pos) =
        some (zipWith (Elem.cut n) es vs, u) ∧ u.pos = s.pos + (elements n (es.take vs.length)).length := by
  have hl : (s.buf.take s.pos).length = s.pos := by
    rw [length_take]
    omega
  have hat : At (s.buf.take s.pos) (s.buf.drop s.pos) s := ⟨(take_append_drop ..).symm, hl.symm⟩
  obtain ⟨t, henc, he⟩ := writes_foldlM (fun e => (e.encode_writes n).element) es hat (by
    rw [length_drop]
    exact Nat.le_sub_of_add_le' hfit)
  refine ⟨t, henc, by rw [he.pos, length_append, hl]; rfl, fun vs hvs => ?_⟩
  have hs := setpos_at (he.buf.trans (append_assoc ..)) hl.symm
  obtain ⟨u, hd, -, hpos⟩ := decodeAll_reads (View.decode_reads n) hvs hs
  exact ⟨u, hd, hpos.trans (by rw [hs.pos, hl]; rfl)⟩

/-- Two elements: one byte, and a nested element between two bytes and one. The decoder knows no field of the first, and
of the second all but the first byte in the nested element. -/
theorem arrayElement_decodes_two : ∃ t u,
    ([[.inl [7]], [.inl [8, 9], .inr [.inl [5, 6]], .inl [4]]] : List (Elem 2)).foldlM
      (fun s e => encodeElement (e.encode 2) s) ⟨replicate 18 0, 0, by decide⟩ = some t ∧
    decodeAll (View.decode 2) [[], [.inl 2, .inr [.inl 1], .inl 1]] (t.setpos 0) =
      some ([[], [.inl [8, 9], .inr [.inl [5]], .inl [4]]], u) ∧ u.pos = 18 := by
  obtain ⟨t, he, -, hd⟩ := arrayElement_decodes 2 [[.inl [7]], [.inl [8, 9], .inr [.inl [5, 6]], .inl [4]]]
    ⟨replicate 18 0, 0, by decide⟩ (by decide)
  obtain ⟨u, hv, hpos⟩ := hd [[], [.inl 2, .inr [.inl 1], .inl 1]] (by simp [FitAll, View.Fits, FitParts])
  exact ⟨t, u, he, hv, hpos⟩

end OpenLava.Xdr
