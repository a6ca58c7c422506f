import P2PCrawler.Watermark
import P2PCrawler.Frame
import P2PCrawler.Lib.Csv

/-!
# Reading the address log back

A record is a row with a marker in its first field, and for a block one row for each address.

* `LogEvent.rows` — the rows of a record; `render_text` — its text is theirs.
* `readLog` — the rows of a file, grouped by the markers.
* `Attributed` — each record in the file is that of one call, in the order of its producer's calls.
* `log_unambiguous` — what is read from a file without failed writes is what the producers asked
  for, whatever text the peers have sent.
-/

set_option autoImplicit false

namespace P2PCrawler

open ThreadPool

/-! ## Rows -/

/-- The first row of a record, with its marker. -/
def LogEvent.head (H : Digests) (eventId : Nat) : LogEvent → List String
  | .block r parsed =>
    ["===NEW NODE===", toString eventId, r.host, toString r.port.toNat, r.network,
      toString r.receivedAt, r.messageType, "complete", toString parsed.declaredCount,
      toString parsed.addrs.length, toString parsed.unknownEntries,
      toString r.handshake.version, toString r.handshake.services, r.handshake.userAgent,
      toString r.handshake.latestBlock, toString r.handshake.relay]
  | .outcome host port collected =>
    ["===REQUEST OUTCOME===", toString eventId, host, toString port.toNat, collected.asStr]
  | .malformed host port messageType error payload =>
    ["===MALFORMED RESPONSE===", toString eventId, host, toString port.toNat, messageType,
      "malformed", error.display, String.join ((H.sha256 payload).map hexByte)]

/-- The row of an advertised address. -/
def AdvertisedAddr.line (eventId : Nat) (a : AdvertisedAddr) : List String :=
  [toString eventId, a.host, toString a.port.toNat, a.network.asStr, toString a.timestamp,
    toString a.services, toString a.wireNetworkId.toNat]

/-- The address rows of a record. -/
def LogEvent.lines (eventId : Nat) : LogEvent → List (List String)
  | .block _ parsed => parsed.addrs.map (·.line eventId)
  | _ => []

def LogEvent.rows (H : Digests) (eventId : Nat) (e : LogEvent) : List (List String) :=
  e.head H eventId :: e.lines eventId

/-- Rows as lists of characters. -/
def charRows (rows : List (List String)) : List Csv.Row := rows.map (·.map String.toList)

/-! ## The text of a record -/

theorem pushCsvField_text (f : String) : Csv.FieldText f.toList (pushCsvField f).toList := by
  unfold pushCsvField
  simp only
  split
  · have h : ("\"" ++ String.ofList (f.toList.flatMap fun c => if c = '"' then ['"', '"'] else [c]) ++
        "\"").toList = '"' :: (Csv.doubled f.toList ++ ['"']) := by
      simp [Csv.doubled]
    rw [h]
    exact .quoted _
  · rename_i hbare
    refine .bare fun c hc => ?_
    simp only [Bool.or_eq_true, List.contains_iff_mem, not_or] at hbare
    obtain ⟨⟨⟨hcomma, hquote⟩, hcr⟩, hlf⟩ := hbare
    exact ⟨fun h => hcomma (h ▸ hc), fun h => hquote (h ▸ hc), fun h => hcr (h ▸ hc),
      fun h => hlf (h ▸ hc)⟩

theorem pushCsvFields_text (f : String) (fs : List String) :
    Csv.RowText ((f :: fs).map String.toList) (pushCsvFields (f :: fs) ++ "\n").toList := by
  unfold pushCsvFields
  induction fs generalizing f with
  | nil =>
    rw [List.map_singleton, List.map_singleton, String.intercalate_singleton, String.toList_append]
    exact .last (pushCsvField_text f) .lf
  | cons g fs ih =>
    have h : (",".intercalate ((f :: g :: fs).map pushCsvField) ++ "\n").toList =
        (pushCsvField f).toList ++
          ',' :: (",".intercalate ((g :: fs).map pushCsvField) ++ "\n").toList := by
      simp only [List.map_cons, String.intercalate_cons_cons, String.toList_append,
        List.append_assoc]
      rfl
    rw [h]
    exact .cons (pushCsvField_text f) (ih g)

/-- A row that starts with a marker. -/
theorem marked_text {m : String} (hm : Csv.Bare m.toList) (f : String) (fs : List String) :
    Csv.RowText ((m :: f :: fs).map String.toList) ((m ++ ",") ++ pushCsvFields (f :: fs) ++ "\n").toList := by
  have h : ((m ++ ",") ++ pushCsvFields (f :: fs) ++ "\n").toList =
      m.toList ++ ',' :: (pushCsvFields (f :: fs) ++ "\n").toList := by
    simp only [String.toList_append, List.append_assoc]
    rfl
  rw [h]
  exact .cons (.bare hm) (pushCsvFields_text f fs)

theorem lines_text (eventId : Nat) (addrs : List AdvertisedAddr) :
    Csv.Text (charRows (addrs.map (·.line eventId)))
      (String.join (addrs.map fun a => pushCsvFields (a.line eventId) ++ "\n")).toList := by
  induction addrs with
  | nil => exact .nil
  | cons a addrs ih =>
    rw [List.map_cons, List.map_cons, String.join_cons, String.toList_append]
    exact .cons (pushCsvFields_text _ _) ih

/-- The text of a record is the text of its rows. -/
theorem render_text (H : Digests) (eventId : Nat) (e : LogEvent) :
    Csv.Text (charRows (e.rows H eventId)) (e.render H eventId).toList := by
  have hone : ∀ {row : List String} {w : String}, Csv.RowText (row.map String.toList) w.toList →
      Csv.Text (charRows [row]) w.toList := by
    intro row w h
    have hnil := Csv.Text.cons h .nil
    rwa [List.append_nil] at hnil
  cases e with
  | block r parsed =>
    have hhead := marked_text (m := "===NEW NODE===") (by decide) (toString eventId) [r.host,
      toString r.port.toNat, r.network, toString r.receivedAt, r.messageType, "complete",
      toString parsed.declaredCount, toString parsed.addrs.length, toString parsed.unknownEntries,
      toString r.handshake.version, toString r.handshake.services, r.handshake.userAgent,
      toString r.handshake.latestBlock, toString r.handshake.relay]
    have hall := Csv.Text.cons hhead (lines_text eventId parsed.addrs)
    rw [← String.toList_append] at hall
    exact hall
  | outcome host port collected =>
    exact hone (marked_text (m := "===REQUEST OUTCOME===") (by decide) (toString eventId)
      [host, toString port.toNat, collected.asStr])
  | malformed host port messageType error payload =>
    exact hone (marked_text (m := "===MALFORMED RESPONSE===") (by decide) (toString eventId)
      [host, toString port.toNat, messageType, "malformed", error.display,
        String.join ((H.sha256 payload).map hexByte)])

/-! ## Reading -/

/-- The row starts a record. -/
def isMarker (row : List String) : Bool :=
  row.head?.any fun f =>
    f == "===NEW NODE===" || f == "===REQUEST OUTCOME===" || f == "===MALFORMED RESPONSE==="

/-- The rows before the first marker, and each marked row with the rows up to the next. -/
def group : List (List String) → List (List String) × List (List String × List (List String))
  | [] => ([], [])
  | row :: rows =>
    let more := group rows
    if isMarker row then ([], (row, more.1) :: more.2) else (row :: more.1, more.2)

/-- The rows of a file. -/
def readRows (bytes : List Byte) : Option (List (List String)) :=
  (fromUtf8 bytes).bind fun text =>
    (Csv.read text.toList).map fun rows => rows.map fun row => row.map String.ofList

/-- The records of a file: a marked row, and the rows that follow it. -/
def readLog (bytes : List Byte) : Option (List (List String × List (List String))) :=
  (readRows bytes).bind fun rows => if (group rows).1.isEmpty then some (group rows).2 else none

theorem isMarker_head (H : Digests) (eventId : Nat) (e : LogEvent) :
    isMarker (e.head H eventId) = true := by
  cases e <;> rfl

/-- An event id is no marker. -/
theorem isMarker_line (eventId : Nat) (a : AdvertisedAddr) : isMarker (a.line eventId) = false := by
  have hne : ∀ m : String, '=' ∈ m.toList → (toString eventId == m) = false := by
    intro m hm
    rw [beq_eq_false_iff_ne]
    rintro rfl
    have hdigits : (toString eventId).toList = Nat.toDigits 10 eventId := by
      rw [Nat.toString_eq_repr, Nat.repr]
      exact String.toList_ofList
    rw [hdigits] at hm
    have := Nat.isDigit_of_mem_toDigits (by decide) (by decide) hm
    cases this
  unfold isMarker AdvertisedAddr.line
  simp only [List.head?_cons, Option.any_some, hne _ (by decide : '=' ∈ "===NEW NODE===".toList),
    hne _ (by decide : '=' ∈ "===REQUEST OUTCOME===".toList),
    hne _ (by decide : '=' ∈ "===MALFORMED RESPONSE===".toList), Bool.or_false]

theorem group_lines (eventId : Nat) (addrs : List AdvertisedAddr) (rows : List (List String)) :
    group (addrs.map (·.line eventId) ++ rows) =
      (addrs.map (·.line eventId) ++ (group rows).1, (group rows).2) := by
  induction addrs with
  | nil => rfl
  | cons a addrs ih =>
    simp only [List.map_cons, List.cons_append, group, ih, isMarker_line, Bool.false_eq_true,
      if_false]

theorem group_rows (H : Digests) (eventId : Nat) (e : LogEvent) {rows : List (List String)}
    (hrows : (group rows).1 = []) : group (e.rows H eventId ++ rows) =
      ([], (e.head H eventId, e.lines eventId) :: (group rows).2) := by
  have hlines : group (e.lines eventId ++ rows) = (e.lines eventId, (group rows).2) := by
    cases e with
    | block r parsed =>
      have h := group_lines eventId parsed.addrs rows
      rwa [hrows, List.append_nil] at h
    | outcome | malformed => exact Prod.ext hrows rfl
  simp only [LogEvent.rows, List.cons_append, group, hlines, isMarker_head, if_true]

/-! ## The file -/

/-- The rows of the pieces in the file. -/
def pieceRows (H : Digests) (ps : List Piece) : List (List String) :=
  ps.flatMap fun p => p.event.rows H p.eventId

/-- The text of the pieces. -/
def pieceText (H : Digests) (ps : List Piece) : String :=
  String.join (ps.map fun p => p.event.render H p.eventId)

theorem pieces_text (H : Digests) (ps : List Piece) :
    Csv.Text (charRows (pieceRows H ps)) (pieceText H ps).toList := by
  induction ps with
  | nil => exact .nil
  | cons p ps ih =>
    have h := (render_text H p.eventId p.event).append ih
    unfold charRows pieceRows pieceText at h ⊢
    rw [List.flatMap_cons, List.map_append, List.map_cons, String.join_cons, String.toList_append]
    exact h

theorem group_pieces (H : Digests) (ps : List Piece) : group (pieceRows H ps) =
    ([], ps.map fun p => (p.event.head H p.eventId, p.event.lines p.eventId)) := by
  induction ps with
  | nil => rfl
  | cons p ps ih =>
    have hgroup := group_rows H p.eventId p.event (congrArg Prod.fst ih)
    unfold pieceRows at ih hgroup ⊢
    rw [List.flatMap_cons, hgroup, ih]
    rfl

/-- The bytes of whole records. -/
theorem whole_bytes (H : Digests) {ps : List Piece} (hwhole : ∀ p ∈ ps, p.torn = none) :
    ps.flatMap (·.bytes H) = utf8 (pieceText H ps).toList := by
  induction ps with
  | nil => rfl
  | cons p ps ih =>
    have hp : p.bytes H = utf8 (p.event.render H p.eventId).toList := by
      unfold Piece.bytes
      rw [hwhole p (List.mem_cons_self ..)]
      rfl
    rw [List.flatMap_cons, hp, ih fun q hq => hwhole q (List.mem_cons_of_mem _ hq)]
    unfold pieceText utf8
    rw [List.map_cons, String.join_cons, String.toList_append, List.flatMap_append]

theorem readRows_pieces (H : Digests) {ps : List Piece} (hwhole : ∀ p ∈ ps, p.torn = none) :
    readRows (ps.flatMap (·.bytes H)) = some (pieceRows H ps) := by
  have hback : (charRows (pieceRows H ps)).map (fun row => row.map String.ofList) =
      pieceRows H ps := by
    unfold charRows
    simp
  unfold readRows
  rw [fromUtf8_iff.mpr (whole_bytes H hwhole), Option.bind_some, Csv.read_text (pieces_text H ps),
    Option.map_some, hback]

/-! ## The log -/

/-- No write fails. -/
def wholeWrites (_ : Conf LogState LogThread) (a : Nat × WriteResult) : Prop := a.2.fault = none

theorem writerStep_whole {H : Digests} {L L' : LogState} {synced : Bool}
    (h : L.writerStep H none synced = some L') (hL : ∀ p ∈ L.written, p.torn = none) :
    ∀ p ∈ L'.written, p.torn = none := by
  unfold LogState.writerStep at h
  split at h
  · cases h
  · cases h
    intro p hp
    rcases List.mem_append.mp hp with hp | hp
    · exact hL p hp
    · rw [List.mem_singleton.mp hp]
  · split at h <;> cases h <;> exact hL

theorem call_written {L L' : LogState} {k : LogCall} {next : LogNext}
    (h : k.step L = some (L', next)) : L'.written = L.written := by
  cases next with
  | pending k' =>
    rcases LogCall.step_pending h with ⟨r, -, -, -, rfl⟩ | ⟨r, eventId, -, -, rfl⟩
    · rfl
    · rfl
  | returned res =>
    obtain ⟨r, eventId, ticket, -, -, rfl⟩ := LogCall.step_returned h
    rfl

theorem written_whole {H : Digests} {programs : List (List LogRequest)}
    {c : Conf LogState LogThread} (hr : Reach (logProgram H) wholeWrites (logStart programs) c) :
    ∀ p ∈ c.shared.written, p.torn = none := by
  refine hr.invariant (I := fun c => ∀ p ∈ c.shared.written, p.torn = none) ?_ ?_
  · intro p hp
    cases hp
  · intro c a c' _ ih hadm hst
    obtain ⟨t, L', t', -, hp, rfl⟩ := step_cases hst
    cases t with
    | writer =>
      obtain ⟨L₁, hs, heq⟩ := Option.map_eq_some_iff.mp hp
      cases heq
      have hfault : a.2.fault = none := hadm
      rw [hfault] at hs
      exact writerStep_whole hs ih
    | producer todo call =>
      cases call with
      | none =>
        cases todo with
        | nil => cases hp
        | cons r todo => cases hp; exact ih
      | some call =>
        obtain ⟨⟨L₁, n⟩, hs, heq⟩ := Option.map_eq_some_iff.mp hp
        cases heq
        show ∀ p ∈ L₁.written, p.torn = none
        rw [call_written hs]
        exact ih

/-! ## Whose records they are -/

/-- The record of a request. -/
def LogRequest.event : LogRequest → Option LogEvent
  | .write event => some event
  | .flush => none

/-- The records a producer asks for, in the order of its calls. -/
def writesOf (program : List LogRequest) : List LogEvent := program.filterMap LogRequest.event

/-- The record of a call that the writer has not served. -/
def LogCall.unserved (L : LogState) : LogCall → List LogEvent
  | .lock r => r.event.toList
  | .send r _ => r.event.toList
  | .wait r _ ticket => if (L.replies.lookup ticket).isSome then [] else r.event.toList

/-- The records a thread still waits for or will ask for. -/
def LogThread.unserved (L : LogState) : LogThread → List LogEvent
  | .writer => []
  | .producer todo call => (call.map (·.unserved L)).getD [] ++ writesOf todo

/-- The records of producer `i` among `calls`, which pairs each served call with its producer. -/
def servedTo (i : Nat) (calls : List (Nat × LogEvent)) : List LogEvent :=
  (calls.filter fun p => p.1 == i).map (·.2)

/-- The records in the file are those of the calls served, one for each call and in this order;
    those of a producer, followed by what it has not been served, are what it asks for. -/
structure Attributed (programs : List (List LogRequest)) (c : Conf LogState LogThread)
    (calls : List (Nat × LogEvent)) : Prop where
  written : c.shared.written.map (·.event) = calls.map (·.2)
  known : ∀ p ∈ calls, p.1 < programs.length
  own : ∀ (i : Nat) (program : List LogRequest), programs[i]? = some program →
    ∃ t, c.threads[i + 1]? = some t ∧
      servedTo i calls ++ t.unserved c.shared = writesOf program

theorem servedTo_append (i j : Nat) (calls : List (Nat × LogEvent)) (new : List LogEvent) :
    servedTo i (calls ++ new.map fun e => (j, e)) =
      servedTo i calls ++ if j = i then new else [] := by
  unfold servedTo
  rw [List.filter_append, List.map_append, List.filter_map, List.map_map]
  by_cases h : j = i
  · have hall : new.filter ((fun p : Nat × LogEvent => p.1 == i) ∘ fun e => (j, e)) = new :=
      List.filter_eq_self.mpr fun e _ => beq_iff_eq.mpr h
    rw [hall, if_pos h]
    exact congrArg _ (List.map_id _)
  · have hnone : new.filter ((fun p : Nat × LogEvent => p.1 == i) ∘ fun e => (j, e)) = [] :=
      List.filter_eq_nil_iff.mpr fun e _ => by simpa using h
    rw [hnone, if_neg h]
    rfl

theorem writesOf_cons (r : LogRequest) (todo : List LogRequest) :
    writesOf (r :: todo) = r.event.toList ++ writesOf todo := by
  cases r <;> rfl

/-- Only a call that waits for its reply looks at the log. -/
theorem LogThread.unserved_of_free {t : LogThread} (hfree : ∀ k, t.call = some k → k.holds = false)
    (L L' : LogState) : t.unserved L' = t.unserved L := by
  cases t with
  | writer => rfl
  | producer todo call =>
    cases call with
    | none => rfl
    | some k =>
      cases k with
      | lock r => rfl
      | send r eventId => cases hfree _ rfl
      | wait r eventId ticket => cases hfree _ rfl

theorem LogThread.unserved_congr {L L' : LogState} (h : L'.replies = L.replies) (t : LogThread) :
    t.unserved L' = t.unserved L := by
  cases t with
  | writer => rfl
  | producer todo call =>
    cases call with
    | none => rfl
    | some k => cases k <;> simp only [LogThread.unserved, Option.map_some, LogCall.unserved, h]

/-- The step of a producer serves nothing: what it has not been served stays the same. -/
theorem producer_unserved {L L' : LogState} {todo : List LogRequest} {call : Option LogCall}
    {t' : LogThread} {H : Digests} {a : WriteResult}
    (hfresh : ∀ t, L.tickets ≤ t → L.replies.lookup t = none)
    (h : logProgram H L (.producer todo call) a = some (L', t')) :
    L'.written = L.written ∧ L'.replies = L.replies ∧
      t'.unserved L' = (LogThread.producer todo call).unserved L := by
  cases call with
  | none =>
    cases todo with
    | nil => cases h
    | cons r todo =>
      cases h
      refine ⟨rfl, rfl, ?_⟩
      exact (writesOf_cons r todo).symm
  | some k =>
    obtain ⟨⟨L₁, n⟩, hs, heq⟩ := Option.map_eq_some_iff.mp h
    cases heq
    cases n with
    | pending k' =>
      rcases LogCall.step_pending hs with ⟨r, rfl, -, rfl, rfl⟩ | ⟨r, eventId, rfl, rfl, rfl⟩
      · exact ⟨rfl, rfl, rfl⟩
      · -- the new ticket has no reply yet
        refine ⟨rfl, rfl, ?_⟩
        have hnone : L.replies.lookup L.tickets = none := hfresh _ (Nat.le_refl _)
        simp only [LogThread.unserved, Option.map_some, LogCall.unserved, hnone,
          Option.isSome_none, Bool.false_eq_true, if_false]
    | returned res =>
      obtain ⟨r, eventId, ticket, rfl, hreply, rfl⟩ := LogCall.step_returned hs
      refine ⟨rfl, rfl, ?_⟩
      simp only [LogThread.unserved, Option.map_some, Option.map_none, LogCall.unserved, hreply,
        Option.isSome_some, if_true, Option.getD_some, Option.getD_none]

/-- The writer serves the call that holds the mutex: its record, where it is one, is the one new
    record in the file, and the call no longer waits for it. -/
theorem writerStep_serves {H : Digests} {L L' : LogState} {k : LogCall} {fault : Option Nat}
    {synced : Bool} (hh : k.holds = true) (ht : Turn L k)
    (hs : L.writerStep H fault synced = some L') :
    ∃ new : List LogEvent, L'.written.map (·.event) = L.written.map (·.event) ++ new ∧
      k.unserved L = new ++ k.unserved L' := by
  cases k with
  | lock r => cases hh
  | send r eventId =>
    obtain ⟨hch, -⟩ := ht
    simp only [LogState.writerStep, hch] at hs
    cases hs
  | wait r eventId ticket =>
    obtain ⟨-, -, ⟨hch, hnone, -⟩ | ⟨hch, -⟩⟩ := ht
    · have hserved : ∀ res : Option Nat, L'.replies = L.replies.insert ticket res →
          (LogCall.wait r eventId ticket).unserved L =
            r.event.toList ++ (LogCall.wait r eventId ticket).unserved L' := by
        intro res hres
        simp only [LogCall.unserved, hnone, hres, AList.lookup_insert, Option.isSome_none,
          Option.isSome_some, Bool.false_eq_true, if_false, if_true, List.append_nil]
      cases r with
      | write event =>
        simp only [LogState.writerStep, hch, LogRequest.command] at hs
        cases fault with
        | none =>
          cases hs
          exact ⟨[event], by simp, hserved _ rfl⟩
        | some kept =>
          simp only at hs
          split at hs <;> cases hs
          exact ⟨[event], by simp, hserved _ rfl⟩
      | flush =>
        simp only [LogState.writerStep, hch, LogRequest.command] at hs
        split at hs <;> cases hs <;>
          exact ⟨[], (List.append_nil _).symm, hserved _ rfl⟩
    · simp only [LogState.writerStep, hch] at hs
      cases hs

/-- The threads of a run are the writer and one producer for each program. -/
structure Manned (programs : List (List LogRequest)) (c : Conf LogState LogThread) : Prop where
  writer : c.threads[0]? = some .writer
  length : c.threads.length = programs.length + 1

theorem logProgram_writer {H : Digests} {L L' : LogState} {t t' : LogThread} {a : WriteResult}
    (h : logProgram H L t a = some (L', t')) : t = .writer ↔ t' = .writer := by
  cases t with
  | writer =>
    obtain ⟨L₁, -, heq⟩ := Option.map_eq_some_iff.mp h
    cases heq
    exact Iff.rfl
  | producer todo call =>
    cases call with
    | none =>
      cases todo with
      | nil => cases h
      | cons r todo => cases h; simp
    | some k =>
      obtain ⟨⟨L₁, n⟩, -, heq⟩ := Option.map_eq_some_iff.mp h
      cases heq
      simp

theorem Manned.step {H : Digests} {programs : List (List LogRequest)}
    {c c' : Conf LogState LogThread} {a : Nat × WriteResult} (h : Manned programs c)
    (hst : ThreadPool.step (logProgram H) c a = some c') : Manned programs c' := by
  obtain ⟨t, sh', t', ht, hp, rfl⟩ := step_cases hst
  refine ⟨?_, by rw [List.length_set]; exact h.length⟩
  show (c.threads.set a.1 t')[0]? = some .writer
  by_cases h0 : a.1 = 0
  · have htw : t = .writer := by
      rw [h0, h.writer] at ht
      exact (Option.some.inj ht).symm
    rw [h0, List.getElem?_set_self (by rw [h.length]; omega), (logProgram_writer hp).mp htw]
  · rw [List.getElem?_set_ne h0]
    exact h.writer

/-- **A served call is one record.**  A step adds to the file the record of the call it serves, at
    most one, and leaves alone what the other producers have been served. -/
theorem Attributed.step {H : Digests} {programs : List (List LogRequest)}
    {c c' : Conf LogState LogThread} {a : Nat × WriteResult} {calls : List (Nat × LogEvent)}
    (hm : Manned programs c) (hi : LogInv c.shared (callsOf LogThread.call c.threads))
    (h : Attributed programs c calls) (hst : ThreadPool.step (logProgram H) c a = some c') :
    ∃ calls', Attributed programs c' calls' := by
  obtain ⟨t, L', t', ht, hp, rfl⟩ := step_cases hst
  have hcall : ∀ {j : Nat} {u : LogThread}, c.threads[j]? = some u →
      callsOf LogThread.call c.threads j = u.call := by
    intro j u hu
    unfold callsOf
    rw [hu]
    rfl
  cases t with
  | producer todo call =>
    -- a producer moves: nothing is served
    have hfresh : ∀ t, c.shared.tickets ≤ t → c.shared.replies.lookup t = none := by
      cases hi with
      | free hw => exact hw.fresh
      | held i k hw => exact hw.fresh
    obtain ⟨hwritten, hreplies, hsame⟩ := producer_unserved hfresh hp
    refine ⟨calls, ?_, h.known, ?_⟩
    · show L'.written.map (·.event) = calls.map (·.2)
      rw [hwritten]
      exact h.written
    · intro i program hprogram
      obtain ⟨u, hu, hown⟩ := h.own i program hprogram
      by_cases hji : a.1 = i + 1
      · rw [hji] at ht
        rw [hu] at ht
        cases ht
        refine ⟨t', ?_, ?_⟩
        · rw [hji]
          exact List.getElem?_set_self (List.getElem?_eq_some_iff.mp hu).1
        · show servedTo i calls ++ t'.unserved L' = writesOf program
          rw [hsame]
          exact hown
      · refine ⟨u, (List.getElem?_set_ne hji).trans hu, ?_⟩
        show servedTo i calls ++ u.unserved L' = writesOf program
        rw [LogThread.unserved_congr hreplies]
        exact hown
  | writer =>
    -- the writer serves the call that holds the mutex
    obtain ⟨L₁, hs, heq⟩ := Option.map_eq_some_iff.mp hp
    cases heq
    have hidem : c.threads.set a.1 .writer = c.threads := by
      obtain ⟨hlt, hget⟩ := List.getElem?_eq_some_iff.mp ht
      rw [← hget]
      exact List.set_getElem_self hlt
    cases hi with
    | free hw hl hidle hnone =>
      simp only [LogState.writerStep, hidle.1] at hs
      cases hs
    | held i₀ k hw hl hk hh hturn hothers =>
      obtain ⟨new, hwritten, hserved⟩ := writerStep_serves hh hturn hs
      obtain ⟨j, rfl⟩ : ∃ j, i₀ = j + 1 := by
        refine Nat.exists_eq_add_one_of_ne_zero ?_
        rintro rfl
        rw [hcall hm.writer] at hk
        cases hk
      have hj : j < programs.length := by
        unfold callsOf at hk
        obtain ⟨u, hu, -⟩ := Option.bind_eq_some_iff.mp hk
        have := (List.getElem?_eq_some_iff.mp hu).1
        rw [hm.length] at this
        omega
      refine ⟨calls ++ new.map fun e => (j, e), ?_, ?_, ?_⟩
      · show L'.written.map (·.event) = (calls ++ new.map fun e => (j, e)).map (·.2)
        rw [hwritten, h.written, List.map_append, List.map_map]
        exact congrArg _ (List.map_id _).symm
      · intro p hp
        rcases List.mem_append.mp hp with hp | hp
        · exact h.known p hp
        · obtain ⟨e, -, rfl⟩ := List.mem_map.mp hp
          exact hj
      · intro i program hprogram
        obtain ⟨u, hu, hown⟩ := h.own i program hprogram
        refine ⟨u, by rw [hidem]; exact hu, ?_⟩
        show servedTo i (calls ++ new.map fun e => (j, e)) ++ u.unserved L' = writesOf program
        rw [servedTo_append, ← hown]
        by_cases hji : j = i
        · subst hji
          rw [hcall hu] at hk
          have hnew : u.unserved c.shared = new ++ u.unserved L' := by
            cases u with
            | writer => cases hk
            | producer todo call =>
              obtain rfl : call = some k := hk
              simp only [LogThread.unserved, Option.map_some, Option.getD_some, hserved,
                List.append_assoc]
          rw [if_pos rfl, hnew, List.append_assoc]
        · have hfree : ∀ k', u.call = some k' → k'.holds = false := fun k' hk' =>
            hothers (i + 1) k' (by omega) ((hcall hu).trans hk')
          rw [if_neg hji, List.append_nil, LogThread.unserved_of_free hfree c.shared L']

theorem attributed {H : Digests} {ok : Conf LogState LogThread → Nat × WriteResult → Prop}
    {programs : List (List LogRequest)} {c : Conf LogState LogThread}
    (hr : Reach (logProgram H) ok (logStart programs) c) :
    Manned programs c ∧ ∃ calls, Attributed programs c calls := by
  refine hr.invariant (I := fun c => Manned programs c ∧ ∃ calls, Attributed programs c calls) ?_ ?_
  · refine ⟨⟨rfl, by simp [logStart]⟩, [], rfl, fun p hp => (by cases hp), ?_⟩
    intro i program hprogram
    refine ⟨.producer program none, ?_, rfl⟩
    simp [logStart, hprogram]
  · rintro c a c' hrc ⟨hm, calls, h⟩ _ hst
    exact ⟨hm.step hst, h.step hm (log_inv hrc) hst⟩

/-- A single producer writes its own sequence. -/
theorem Attributed.alone {program : List LogRequest} {c : Conf LogState LogThread}
    {calls : List (Nat × LogEvent)} (h : Attributed [program] c calls) :
    ∃ t, c.threads[1]? = some t ∧
      c.shared.written.map (·.event) ++ t.unserved c.shared = writesOf program := by
  obtain ⟨t, ht, hown⟩ := h.own 0 program rfl
  have hall : servedTo 0 calls = calls.map (·.2) := by
    refine congrArg _ (List.filter_eq_self.mpr fun p hp => beq_iff_eq.mpr ?_)
    exact Nat.lt_one_iff.mp (h.known p hp)
  exact ⟨t, ht, by rw [h.written, ← hall]; exact hown⟩

/-! ## Result -/

/-- **The log is unambiguous.**  Whatever any number of producers ask for, under any interleaving,
    with any texts in the records: as long as no write fails, the records in the file are those of
    the calls served, each producer's in the order of its calls (a single one that has returned has
    written its list), and are numbered from one; reading the file gives exactly their rows, no
    other rows have its text, and grouping them by the markers gives each record with exactly its
    own address rows. -/
theorem log_unambiguous {H : Digests} {programs : List (List LogRequest)}
    {c : Conf LogState LogThread} (hr : Reach (logProgram H) wholeWrites (logStart programs) c) :
    (∃ calls, Attributed programs c calls) ∧
    (∀ program, programs = [program] → c.threads[1]? = some (.producer [] none) →
      c.shared.written.map (·.event) = writesOf program) ∧
    c.shared.written.map (·.eventId) = List.range' 1 c.shared.written.length ∧
    readRows (c.shared.file H) = some (pieceRows H c.shared.written) ∧
    (∀ text rows, c.shared.file H = utf8 text → Csv.Text rows text →
      rows = charRows (pieceRows H c.shared.written)) ∧
    readLog (c.shared.file H) =
      some (c.shared.written.map fun p => (p.event.head H p.eventId, p.event.lines p.eventId)) := by
  have hwhole := written_whole hr
  have hnumbered : Numbered c.shared.written := by
    cases log_inv hr with
    | free hw => exact hw.numbered
    | held i k hw => exact hw.numbered
  have hrows := readRows_pieces H hwhole
  obtain ⟨-, hcalls⟩ := attributed hr
  refine ⟨hcalls, ?_, hnumbered, hrows, ?_, ?_⟩
  · rintro program rfl hreturned
    obtain ⟨calls, h⟩ := hcalls
    obtain ⟨t, ht, hall⟩ := h.alone
    rw [hreturned] at ht
    cases ht
    exact (List.append_nil _).symm.trans hall
  · intro text rows hfile htext
    have hutf : String.ofList text = pieceText H c.shared.written := by
      have hread : fromUtf8 (c.shared.file H) = some (String.ofList text) := by
        rw [fromUtf8_iff, String.toList_ofList]
        exact hfile
      have hread' : fromUtf8 (c.shared.file H) = some (pieceText H c.shared.written) :=
        fromUtf8_iff.mpr (whole_bytes H hwhole)
      exact Option.some.inj (hread.symm.trans hread')
    have htext' : text = (pieceText H c.shared.written).toList := by
      rw [← hutf, String.toList_ofList]
    rw [htext'] at htext
    exact htext.unique (pieces_text H c.shared.written)
  · unfold readLog
    have hread : readRows (c.shared.file H) = some (pieceRows H c.shared.written) := hrows
    rw [hread, Option.bind_some, group_pieces]
    rfl

/-! ## A hostile peer -/

/-- A user agent that tries to end its record and to start another. -/
def hostileAgent : String := "/x\",1\n===NEW NODE===,2,192.0.2.9/"

def hostileVersion : VersionData :=
  ⟨70016, 0, 0, hostileAgent, 0, true, ⟨0, "0.0.0.0", 0⟩, none, none⟩

def hostileBlock : LogEvent :=
  .block ⟨"192.0.2.1", 8333, "ipv4", 9, "addr", .fromVersion hostileVersion 9 1 "" "" "" ""⟩
    (.single ⟨"192.0.2.7", 8333, .ipv4, 8, 0, 2⟩)

/-- The end of its collection. -/
def hostileEnd : LogEvent := .outcome "192.0.2.1" 8333 .completeQuiet

/-- The malformed answer of another peer. -/
def brokenAnswer : LogEvent := .malformed "192.0.2.3" 8333 "addrv2" .nonCanonicalOrTruncated [1, 0]

/-- The second producer gets its turn between the two records of the first one. -/
def crossed : List (Nat × WriteResult) :=
  [(1, {}), (2, {}), (1, {}), (1, {}), (0, {}), (1, {}), (2, {}), (1, {}), (2, {}), (0, {}), (2, {}),
    (1, {}), (1, {}), (0, {}), (1, {})]

/-- Three records of two producers are read back as three records, the hostile one with its one
    address, and are the records that the producers have asked for. -/
theorem log_unambiguous_hostile : ∃ c calls,
    Reach (logProgram .zero) wholeWrites
      (logStart [[.write hostileBlock, .write hostileEnd], [.write brokenAnswer]]) c ∧
    readLog (c.shared.file .zero) = some [(hostileBlock.head .zero 1, hostileBlock.lines 1),
      (brokenAnswer.head .zero 2, []), (hostileEnd.head .zero 3, [])] ∧
    (hostileBlock.lines 1).length = 1 ∧
    calls.map (·.2) = [hostileBlock, brokenAnswer, hostileEnd] ∧
    servedTo 0 calls = [hostileBlock, hostileEnd] ∧ servedTo 1 calls = [brokenAnswer] := by
  have hrun : (exec (logProgram .zero) (fun _ a => a.2.fault.isNone)
      (logStart [[.write hostileBlock, .write hostileEnd], [.write brokenAnswer]])
      crossed).map (fun c => (c.shared.written, c.threads)) =
        some ([⟨1, hostileBlock, none⟩, ⟨2, brokenAnswer, none⟩, ⟨3, hostileEnd, none⟩],
          [.writer, .producer [] none, .producer [] none]) := by
    decide
  obtain ⟨c, hc, heq⟩ := Option.map_eq_some_iff.mp hrun
  obtain ⟨hwritten, hthreads⟩ := Prod.mk.injEq .. ▸ heq
  have hr : Reach (logProgram .zero) wholeWrites
      (logStart [[.write hostileBlock, .write hostileEnd], [.write brokenAnswer]]) c :=
    (exec_reach hc).mono fun _ a ha => Option.isNone_iff_eq_none.mp ha
  obtain ⟨⟨calls, hcalls⟩, -, -, -, -, hread⟩ := log_unambiguous hr
  rw [hwritten] at hread
  -- both producers have returned from all their calls
  have hserved : ∀ (i : Nat) (program : List LogRequest),
      [[.write hostileBlock, .write hostileEnd], [.write brokenAnswer]][i]? = some program →
      c.threads[i + 1]? = some (.producer [] none) → servedTo i calls = writesOf program := by
    intro i program hprogram hreturned
    obtain ⟨t, ht, hown⟩ := hcalls.own i program hprogram
    rw [hreturned] at ht
    cases ht
    exact (List.append_nil _).symm.trans hown
  refine ⟨c, calls, hr, hread, rfl, ?_, ?_, ?_⟩
  · rw [← hcalls.written, hwritten]
    rfl
  · exact hserved 0 _ rfl (by rw [hthreads]; rfl)
  · exact hserved 1 _ rfl (by rw [hthreads]; rfl)

end P2PCrawler
