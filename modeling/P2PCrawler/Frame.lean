import P2PCrawler.Lib.Bytes
import P2PCrawler.Lib.Framing
import P2PCrawler.Std

/-!
# Message frames (`protocol.rs`, `transport.rs`)

A frame is a header of 24 bytes (the network magic, the command padded with zeros, the length
and the checksum of the payload) followed by the payload.

* `frame` — the encoder, `tryParseEnvelope` — the decoder on a receive buffer.
* `frame_exact` — the two are inverse to each other, for any hash function.
-/

set_option autoImplicit false

namespace P2PCrawler

/-- `MAGIC`. -/
def magic : List Byte := [0xF9, 0xBE, 0xB4, 0xD9]

/-- `MAX_PROTOCOL_MESSAGE_LENGTH`. -/
def maxProtocolMessageLength : Nat := 4000000

/-- The first four bytes of the double SHA-256. -/
def checksum (H : Digests) (payload : List Byte) : List Byte := (H.sha256 (H.sha256 payload)).take 4

structure Envelope where
  command : String
  payload : List Byte
  deriving DecidableEq, Repr

/-! ## Encoding -/

/-- Why a message is not sent. -/
inductive FrameError where
  | invalidCommand
  | payloadTooLarge
  | payloadOverLimit
  deriving DecidableEq, Repr

def FrameError.display : FrameError → String
  | .invalidCommand => "command must be 1..=12 printable ASCII bytes"
  | .payloadTooLarge => "payload too large"
  | .payloadOverLimit => "payload exceeds protocol limit"

def isPrintable (b : Byte) : Bool := decide (0x20 ≤ b) && decide (b ≤ 0x7e)

def validateCommand (command : String) : Except FrameError Unit :=
  let bytes := utf8 command.toList
  if bytes.isEmpty || 12 < bytes.length || bytes.any (fun b => !isPrintable b) then
    .error .invalidCommand
  else .ok ()

/-- Serialize a full message for `command`. -/
def frame (H : Digests) (command : String) (payload : List Byte) : Except FrameError (List Byte) := do
  validateCommand command
  if 2 ^ 32 ≤ payload.length then throw .payloadTooLarge
  if maxProtocolMessageLength < payload.length then throw .payloadOverLimit
  let bytes := utf8 command.toList
  return magic ++ (bytes ++ List.replicate (12 - bytes.length) 0) ++ leBytes 4 payload.length ++
    checksum H payload ++ payload

/-! ## Decoding -/

/-- Why a receive buffer holds no frame. -/
inductive EnvelopeError where
  | magicMismatch
  | commandLength
  | invalidCommandField
  | nonAsciiCommand
  | oversize (length : Nat)
  | checksumMismatch
  deriving DecidableEq, Repr

def EnvelopeError.display : EnvelopeError → String
  | .magicMismatch => "network magic mismatch (stream desynchronized)"
  | .commandLength => "command field is not 12 bytes"
  | .invalidCommandField => "invalid command field"
  | .nonAsciiCommand => "non-ASCII command"
  | .oversize length => s!"payload length {length} exceeds 4,000,000 bytes"
  | .checksumMismatch => "payload checksum mismatch"

def parseCommand (bytes : List Byte) : Except EnvelopeError String :=
  if bytes.length ≠ 12 then .error .commandLength
  else
    let stop := bytes.findIdx (· == 0)
    if stop == 0 || (bytes.take stop).any (fun b => !isPrintable b) ||
        (bytes.drop stop).any (fun b => b != 0) then
      .error .invalidCommandField
    else match fromUtf8 (bytes.take stop) with
      | none => .error .nonAsciiCommand
      | some command => .ok command

/-- Parse one complete envelope without consuming partial bytes: the result, and the buffer
    afterwards. -/
def tryParseEnvelope (H : Digests) (buf : List Byte) :
    Except EnvelopeError (Option Envelope) × List Byte :=
  if buf.length < 24 then (.ok none, buf)
  else
    let header := buf.take 24
    if header.take 4 ≠ magic then (.error .magicMismatch, buf)
    else match parseCommand ((header.drop 4).take 12) with
      | .error e => (.error e, buf)
      | .ok command =>
        let length := leVal ((header.drop 16).take 4)
        let expectedChecksum := (header.drop 20).take 4
        if maxProtocolMessageLength < length then (.error (.oversize length), buf)
        else
          let frameLen := 24 + length
          if buf.length < frameLen then (.ok none, buf)
          else
            let payload := (buf.drop 24).take length
            if checksum H payload ≠ expectedChecksum then (.error .checksumMismatch, buf)
            else (.ok (some ⟨command, payload⟩), buf.drop frameLen)

/-! ## Commands -/

theorem fromUtf8_iff {w : List Byte} {s : String} : fromUtf8 w = some s ↔ w = utf8 s.toList := by
  have hbytes : s.toByteArray = ⟨(utf8 s.toList).toArray⟩ := by
    rw [← String.utf8Encode_toList]
    unfold List.utf8Encode utf8
    exact ByteArray.ext (by simp)
  unfold fromUtf8 String.fromUTF8?
  constructor
  · intro h
    split at h
    · cases h
      have hw := congrArg (fun b : ByteArray => b.data.toList) hbytes
      simpa [String.fromUTF8] using hw
    · cases h
  · rintro rfl
    rw [← hbytes, dif_pos s.isValidUTF8]
    rfl

/-- The command field of a header. -/
def commandField (command : String) : List Byte :=
  utf8 command.toList ++ List.replicate (12 - (utf8 command.toList).length) 0

theorem validateCommand_ok_iff {command : String} : validateCommand command = .ok () ↔
    utf8 command.toList ≠ [] ∧ (utf8 command.toList).length ≤ 12 ∧
      ∀ b ∈ utf8 command.toList, isPrintable b = true := by
  unfold validateCommand
  simp only
  split
  · rename_i h
    simp only [Bool.or_eq_true, List.isEmpty_iff, decide_eq_true_eq, List.any_eq_true,
      Bool.not_eq_true'] at h
    constructor
    · intro heq; cases heq
    · rintro ⟨hne, hlen, hall⟩
      rcases h with (h | h) | ⟨b, hb, h⟩
      · exact absurd h hne
      · omega
      · rw [hall b hb] at h; cases h
  · rename_i h
    simp only [Bool.or_eq_true, List.isEmpty_iff, decide_eq_true_eq, List.any_eq_true,
      Bool.not_eq_true', not_or, not_exists, not_and, Bool.not_eq_false] at h
    exact ⟨fun _ => ⟨h.1.1, by omega, h.2⟩, fun _ => rfl⟩

theorem length_commandField {command : String} (h : validateCommand command = .ok ()) :
    (commandField command).length = 12 := by
  obtain ⟨-, hlen, -⟩ := validateCommand_ok_iff.mp h
  simp [commandField]
  omega

theorem findIdx_commandField {command : String} (h : validateCommand command = .ok ()) :
    (commandField command).findIdx (· == 0) = (utf8 command.toList).length := by
  obtain ⟨-, -, hall⟩ := validateCommand_ok_iff.mp h
  have hnone : (utf8 command.toList).findIdx (· == 0) = (utf8 command.toList).length := by
    rw [List.findIdx_eq_length]
    intro b hb
    by_contra hzero
    have hb0 : b = 0 := by simpa using hzero
    have hp := hall b hb
    rw [hb0] at hp
    cases hp
  have hpad : ∀ n, (List.replicate n (0 : Byte)).findIdx (· == 0) = 0 := by
    intro n
    cases n <;> rfl
  unfold commandField
  rw [List.findIdx_append, hnone, hpad]
  simp

/-- The command fields that are read are those that are written. -/
theorem parseCommand_ok_iff {w : List Byte} {command : String} : parseCommand w = .ok command ↔
    validateCommand command = .ok () ∧ w = commandField command := by
  constructor
  · intro h
    unfold parseCommand at h
    split at h
    · cases h
    rename_i hlen
    simp only at h
    split at h
    · cases h
    rename_i hok
    simp only [Bool.or_eq_true, beq_iff_eq, List.any_eq_true, Bool.not_eq_true', bne_iff_ne,
      not_or, not_exists, not_and, Bool.not_eq_false, not_not] at hok
    obtain ⟨⟨hpos, hall⟩, hzero⟩ := hok
    split at h
    · cases h
    rename_i hutf
    cases h
    rw [fromUtf8_iff] at hutf
    have hstop : w.findIdx (· == 0) ≤ 12 := by
      have := @List.findIdx_le_length _ (· == (0 : Byte)) w
      omega
    have hsize : (utf8 command.toList).length = w.findIdx (· == 0) := by
      rw [← hutf, List.length_take]
      omega
    refine ⟨validateCommand_ok_iff.mpr ⟨?_, by omega, ?_⟩, ?_⟩
    · intro hnil
      rw [hnil] at hsize
      exact hpos hsize.symm
    · rw [← hutf]
      exact hall
    · have hrest : w.drop (w.findIdx (· == 0)) =
          List.replicate (12 - (utf8 command.toList).length) 0 := by
        refine List.eq_replicate_iff.mpr ⟨?_, hzero⟩
        rw [List.length_drop]
        omega
      conv_lhs => rw [← List.take_append_drop (w.findIdx (· == 0)) w, hrest, hutf]
      rfl
  · rintro ⟨hvalid, rfl⟩
    obtain ⟨hne, hlen, hall⟩ := validateCommand_ok_iff.mp hvalid
    have htake : (commandField command).take (utf8 command.toList).length =
        utf8 command.toList := List.take_left
    have hdrop : (commandField command).drop (utf8 command.toList).length =
        List.replicate (12 - (utf8 command.toList).length) 0 := List.drop_left
    unfold parseCommand
    rw [if_neg (by rw [length_commandField hvalid]; exact not_not_intro rfl)]
    simp only [findIdx_commandField hvalid, htake, hdrop]
    rw [if_neg, fromUtf8_iff.mpr rfl]
    simp only [Bool.or_eq_true, beq_iff_eq, List.any_eq_true, Bool.not_eq_true', bne_iff_ne,
      not_or, not_exists, not_and, Bool.not_eq_false, not_not, List.length_eq_zero_iff]
    exact ⟨⟨hne, hall⟩, fun b hb => List.eq_of_mem_replicate hb⟩

/-! ## Frames -/

theorem length_checksum (H : Digests) (payload : List Byte) : (checksum H payload).length = 4 := by
  unfold checksum
  rw [List.length_take, H.sha256_length]
  rfl

/-- The messages that can be sent, and their bytes. -/
theorem frame_ok_iff {H : Digests} {command : String} {payload f : List Byte} :
    frame H command payload = .ok f ↔ validateCommand command = .ok () ∧
      payload.length ≤ maxProtocolMessageLength ∧
      f = magic ++ (commandField command ++ (leBytes 4 payload.length ++
        (checksum H payload ++ payload))) := by
  unfold frame
  cases hv : validateCommand command with
  | error e => exact ⟨fun h => (by cases h), fun h => (by cases h.1)⟩
  | ok u =>
    by_cases hlen : payload.length ≤ maxProtocolMessageLength
    · have hsmall : ¬ 2 ^ 32 ≤ payload.length := by
        unfold maxProtocolMessageLength at hlen
        omega
      have hle : ¬ maxProtocolMessageLength < payload.length := by omega
      simp only [bind, Except.bind, if_neg hsmall, if_neg hle]
      constructor
      · intro h
        cases h
        exact ⟨trivial, hlen, by simp [commandField]⟩
      · rintro ⟨-, -, rfl⟩
        simp [commandField, pure, Except.pure]
    · have hgt : maxProtocolMessageLength < payload.length := by omega
      constructor
      · intro h
        simp only [bind, Except.bind] at h
        split at h
        · cases h
        · cases h
      · rintro ⟨-, hle, -⟩
        exact absurd hle hlen

/-- What the decoder does with a buffer that has a header. -/
theorem tryParseEnvelope_header (H : Digests) {m c l k : List Byte} (hm : m.length = 4)
    (hc : c.length = 12) (hl : l.length = 4) (hk : k.length = 4) (rest : List Byte) :
    tryParseEnvelope H (m ++ (c ++ (l ++ (k ++ rest)))) =
      let buf := m ++ (c ++ (l ++ (k ++ rest)))
      if m ≠ magic then (.error .magicMismatch, buf)
      else match parseCommand c with
        | .error e => (.error e, buf)
        | .ok command =>
          if maxProtocolMessageLength < leVal l then (.error (.oversize (leVal l)), buf)
          else if rest.length < leVal l then (.ok none, buf)
          else if checksum H (rest.take (leVal l)) ≠ k then (.error .checksumMismatch, buf)
          else (.ok (some ⟨command, rest.take (leVal l)⟩), rest.drop (leVal l)) := by
  have hlen : (m ++ (c ++ (l ++ k))).length = 24 := by
    simp only [List.length_append, hm, hc, hl, hk]
  have hbuf : m ++ (c ++ (l ++ (k ++ rest))) = (m ++ (c ++ (l ++ k))) ++ rest := by
    simp only [List.append_assoc]
  have hheader : (m ++ (c ++ (l ++ (k ++ rest)))).take 24 = m ++ (c ++ (l ++ k)) := by
    rw [hbuf, List.take_left' hlen]
  have hrest : (m ++ (c ++ (l ++ (k ++ rest)))).drop 24 = rest := by
    rw [hbuf, List.drop_left' hlen]
  have htotal : (m ++ (c ++ (l ++ (k ++ rest)))).length = 24 + rest.length := by
    rw [hbuf, List.length_append, hlen]
  have hmagic : (m ++ (c ++ (l ++ k))).take 4 = m := List.take_left' hm
  have hdrop : (m ++ (c ++ (l ++ k))).drop 4 = c ++ (l ++ k) := List.drop_left' hm
  have hcommand : (c ++ (l ++ k)).take 12 = c := List.take_left' hc
  have hlength : (m ++ (c ++ (l ++ k))).drop 16 = l ++ k := by
    rw [show 16 = 4 + 12 from rfl, ← List.drop_drop, hdrop, List.drop_left' hc]
  have hsum : (m ++ (c ++ (l ++ k))).drop 20 = k := by
    rw [show 20 = 16 + 4 from rfl, ← List.drop_drop, hlength, List.drop_left' hl]
  have hfour : k.take 4 = k := List.take_of_length_le (by omega)
  have hadvance : (m ++ (c ++ (l ++ (k ++ rest)))).drop (24 + leVal l) = rest.drop (leVal l) := by
    rw [← List.drop_drop, hrest]
  unfold tryParseEnvelope
  rw [if_neg (by omega)]
  simp only [hheader, hrest, htotal, hmagic, hdrop, hcommand, hlength, hsum, hfour, hadvance,
    List.take_left' hl, Nat.add_lt_add_iff_left]

/-- A buffer with a header, by its fields. -/
theorem exists_header {b : List Byte} (h : 24 ≤ b.length) : ∃ m c l k rest : List Byte,
    m.length = 4 ∧ c.length = 12 ∧ l.length = 4 ∧ k.length = 4 ∧
      b = m ++ (c ++ (l ++ (k ++ rest))) := by
  refine ⟨b.take 4, (b.drop 4).take 12, (b.drop 16).take 4, (b.drop 20).take 4, b.drop 24, ?_, ?_,
    ?_, ?_, ?_⟩
  · rw [List.length_take]; omega
  · rw [List.length_take, List.length_drop]; omega
  · rw [List.length_take, List.length_drop]; omega
  · rw [List.length_take, List.length_drop]; omega
  · have hk : b.drop 20 = (b.drop 20).take 4 ++ b.drop 24 := by
      rw [show 24 = 20 + 4 from rfl, ← List.drop_drop, List.take_append_drop]
    have hl : b.drop 16 = (b.drop 16).take 4 ++ b.drop 20 := by
      rw [show 20 = 16 + 4 from rfl, ← List.drop_drop, List.take_append_drop]
    have hc : b.drop 4 = (b.drop 4).take 12 ++ b.drop 16 := by
      rw [show 16 = 4 + 12 from rfl, ← List.drop_drop, List.take_append_drop]
    rw [← hk, ← hl, ← hc, List.take_append_drop]

/-! ## The decoder is exact -/

/-- The frame of an envelope. -/
def FrameOf (H : Digests) (env : Envelope) (f : List Byte) : Prop :=
  frame H env.command env.payload = .ok f

theorem tryParseEnvelope_take_iff {H : Digests} {b r : List Byte} {env : Envelope} :
    tryParseEnvelope H b = (.ok (some env), r) ↔ ∃ f, FrameOf H env f ∧ b = f ++ r := by
  constructor
  · intro h
    by_cases hshort : b.length < 24
    · unfold tryParseEnvelope at h
      rw [if_pos hshort] at h
      cases h
    obtain ⟨m, c, l, k, rest, hm, hc, hl, hk, rfl⟩ := exists_header (b := b) (by omega)
    rw [tryParseEnvelope_header H hm hc hl hk] at h
    simp only at h
    split at h
    · cases h
    rename_i hmagic
    split at h
    · cases h
    rename_i command hcommand
    split at h
    · cases h
    rename_i hmax
    split at h
    · cases h
    rename_i henough
    split at h
    · cases h
    rename_i hsum
    cases h
    obtain ⟨hvalid, rfl⟩ := parseCommand_ok_iff.mp hcommand
    have hpayload : (rest.take (leVal l)).length = leVal l := by
      rw [List.length_take]
      omega
    have hlength : l = leBytes 4 (leVal l) := by
      have := leBytes_leVal l
      rw [hl] at this
      exact this.symm
    refine ⟨_, frame_ok_iff.mpr ⟨hvalid, by rw [hpayload]; omega, rfl⟩, ?_⟩
    rw [hpayload, ← hlength, not_not.mp hmagic, not_not.mp hsum]
    simp only [List.append_assoc, List.take_append_drop]
  · rintro ⟨f, hf, rfl⟩
    obtain ⟨hvalid, hmax, rfl⟩ := frame_ok_iff.mp hf
    have hsize : env.payload.length < 256 ^ 4 := by
      unfold maxProtocolMessageLength at hmax
      omega
    have hval : leVal (leBytes 4 env.payload.length) = env.payload.length := leVal_leBytes hsize
    have hassoc : magic ++ (commandField env.command ++ (leBytes 4 env.payload.length ++
          (checksum H env.payload ++ env.payload))) ++ r =
        magic ++ (commandField env.command ++ (leBytes 4 env.payload.length ++
          (checksum H env.payload ++ (env.payload ++ r)))) := by
      simp only [List.append_assoc]
    rw [hassoc, tryParseEnvelope_header H rfl (length_commandField hvalid) (leBytes_length ..)
      (length_checksum ..)]
    simp only [parseCommand_ok_iff.mpr ⟨hvalid, rfl⟩, hval, List.take_left, List.drop_left,
      List.length_append, not_true_eq_false, if_false, ne_eq]
    rw [if_neg (by omega), if_neg (by omega)]

/-- The decoder keeps the buffer unless it takes a frame. -/
theorem tryParseEnvelope_keeps {H : Digests} {b r : List Byte}
    {res : Except EnvelopeError (Option Envelope)} (h : tryParseEnvelope H b = (res, r))
    (hres : ∀ env, res ≠ .ok (some env)) : r = b := by
  unfold tryParseEnvelope at h
  simp only at h
  repeat' split at h
  all_goals cases h
  all_goals first | rfl | exact absurd rfl (hres _)

/-- At the beginning of a frame the decoder waits. -/
theorem tryParseEnvelope_short {H : Digests} {w : List Byte}
    (h : Framing.Begins (FrameOf H) w) : tryParseEnvelope H w = (.ok none, w) := by
  obtain ⟨env, f, hf, ⟨s, hs⟩, hne⟩ := h
  by_cases hshort : w.length < 24
  · unfold tryParseEnvelope
    rw [if_pos hshort]
  obtain ⟨m, c, l, k, rest, hm, hc, hl, hk, rfl⟩ := exists_header (b := w) (by omega)
  obtain ⟨hvalid, hmax, rfl⟩ := frame_ok_iff.mp hf
  simp only [List.append_assoc] at hs
  obtain ⟨hm', hs₁⟩ := List.append_inj hs (by rw [hm]; rfl)
  obtain ⟨hc', hs₂⟩ := List.append_inj hs₁ (by rw [hc, length_commandField hvalid])
  obtain ⟨hl', hs₃⟩ := List.append_inj hs₂ (by rw [hl, leBytes_length])
  obtain ⟨hk', hrest⟩ := List.append_inj hs₃ (by rw [hk, length_checksum])
  subst hm' hc' hl' hk'
  have hval : leVal (leBytes 4 env.payload.length) = env.payload.length := by
    refine leVal_leBytes ?_
    unfold maxProtocolMessageLength at hmax
    omega
  have hless : rest.length < env.payload.length := by
    have hlen := congrArg List.length hrest
    rw [List.length_append] at hlen
    have hs' : s ≠ [] := by
      rintro rfl
      rw [List.append_nil] at hrest
      exact hne (by rw [hrest])
    have hpos := List.length_pos_iff.mpr hs'
    omega
  rw [tryParseEnvelope_header H rfl hc hl hk]
  simp only [parseCommand_ok_iff.mpr ⟨hvalid, rfl⟩, hval, not_true_eq_false, if_false, ne_eq]
  rw [if_neg (by omega), if_pos hless]

theorem framed (H : Digests) : Framing.Framed (tryParseEnvelope H) (FrameOf H) where
  take_iff _ _ _ := tryParseEnvelope_take_iff
  short _ := tryParseEnvelope_short
  idle := rfl
  waits _ _ h := tryParseEnvelope_keeps h fun _ => nofun
  fails _ _ _ h := tryParseEnvelope_keeps h fun _ => nofun

/-- **Frames are encoded and decoded exactly.**  For any hash function: a buffer yields an envelope
    and a rest iff it is the frame of the envelope followed by the rest; the proper beginning of a
    frame is kept and waited for; an error keeps the buffer; and a concatenation of frames is taken
    apart into exactly its messages. -/
theorem frame_exact (H : Digests) :
    (∀ b r env, tryParseEnvelope H b = (.ok (some env), r) ↔
      ∃ f, frame H env.command env.payload = .ok f ∧ b = f ++ r) ∧
    (∀ command payload f w, frame H command payload = .ok f → w <+: f → w ≠ f →
      tryParseEnvelope H w = (.ok none, w)) ∧
    (∀ b e r, tryParseEnvelope H b = (.error e, r) → r = b) ∧
    (∀ envs fs, List.Forall₂ (fun env f => frame H env.command env.payload = .ok f) envs fs →
      ∀ envs' r, Framing.Drains (tryParseEnvelope H) fs.flatten envs' r ↔ envs' = envs ∧ r = []) := by
  refine ⟨fun b r env => tryParseEnvelope_take_iff, ?_, (framed H).fails, ?_⟩
  · intro command payload f w hf hw hne
    exact tryParseEnvelope_short ⟨⟨command, payload⟩, f, hf, hw, hne⟩
  · intro envs fs hfs envs' r
    have hall := (framed H).drains hfs (.inl rfl)
    rw [List.append_nil] at hall
    constructor
    · exact fun h => h.unique hall
    · rintro ⟨rfl, rfl⟩
      exact hall

end P2PCrawler
