/-
Every call of a host is answered. Neither a report nor a message of a failed analysis can hold a zero:
the octets of the host end at the first zero, so the text has none; quoted texts and numbers have none;
and what else is shown of the text is shown as it is. So a text that can be read always gets its report,
and every failure leaves exactly one message, which the host can ask for until another one is noted.
-/
import LetLint.Analysis.Embedding
import LetLint.Proofs.Analysis.Schedule
import LetLint.Proofs.Text.Utf8
import LetLint.Proofs.Text.ZeroFree
import Mathlib.Data.List.TakeWhile

namespace LetLint

/-! ## Faults and findings of a text without a zero -/

/-- The character that a cause shows. -/
def LexCause.shown? : LexCause → Option Char
  | .unexpected c => some c
  | .badEscape c => some c
  | .unterminated => none

theorem LexCause.zeroFree_message {cause : LexCause} (h : cause.shown? ≠ some '\x00') : ZeroFree cause.message := by
  have hshown {c : Char} (hc : c ≠ '\x00') : ZeroFree c.toString := by
    simpa [ZeroFree] using hc.symm
  cases cause with
  | unexpected c => exact zeroFree_append.2 ⟨by decide, hshown fun hc => h (congrArg some hc)⟩
  | badEscape c => exact zeroFree_append.2 ⟨by decide, hshown fun hc => h (congrArg some hc)⟩
  | unterminated => decide

theorem Scan.error_of_after {α β : Type} {more : Nat} {f : α → β} {s : Scan α} {cause : LexCause}
    (h : (s.after more f).outcome = .error cause) : s.outcome = .error cause := by
  unfold Scan.after at h
  rcases hs : s.outcome with cause' | value
  · rw [hs] at h
    cases h
    rfl
  · rw [hs] at h
    cases h

/-- A faulty string shows a character of its own. -/
theorem mem_of_scanText {cs : List Char} {cause : LexCause} (h : (scanText cs).outcome = .error cause) :
    ∀ c ∈ cause.shown?, c ∈ cs := by
  intro c hc
  fun_induction scanText cs with
  | case1 =>
    cases h
    cases hc
  | case2 => cases h
  | case3 =>
    cases h
    cases hc
  | case4 e rest _ =>
    cases h
    cases hc
    simp
  | case5 e rest d hd _ ih => exact List.mem_cons_of_mem _ (List.mem_cons_of_mem e (ih (Scan.error_of_after h)))
  | case6 d cs _ _ ih => exact List.mem_cons_of_mem d (ih (Scan.error_of_after h))

theorem mem_of_scanToken {c : Char} {cs : List Char} {cause : LexCause} (h : (scanToken c cs).outcome = .error cause) :
    ∀ d ∈ cause.shown?, d ∈ c :: cs := by
  intro d hd
  unfold scanToken at h
  split_ifs at h
  · exact List.mem_cons_of_mem c (mem_of_scanText (Scan.error_of_after h) d hd)
  · cases h
  · cases h
  · unfold scanPunct at h
    split at h
    · cases h
    · split at h
      · cases h
      · cases h
        cases hd
        exact List.mem_cons_self

theorem Cursor.mem_of_next {cursor after : Cursor} {fault : LexFault} (h : cursor.next = .fault fault after) :
    ∀ c ∈ fault.cause.shown?, c ∈ cursor.rest := by
  intro c hc
  unfold Cursor.next at h
  dsimp only at h
  split at h
  · cases h
  · rename_i d cs hrest
    split at h
    · cases h
    · rename_i cause hcause
      cases h
      have hmem : c ∈ cursor.rest.drop (trivia false cursor.rest) := by
        show c ∈ (cursor.advance _).rest
        rw [hrest]
        exact mem_of_scanToken hcause c hc
      exact List.mem_of_mem_drop hmem

/-- A fault of a text shows a character of the text. -/
theorem mem_of_tokenize {text : String} {fault : LexFault} (h : tokenize text = .error fault) :
    ∀ c ∈ fault.cause.shown?, c ∈ text.toList := by
  intro c hc
  unfold tokenize at h
  obtain ⟨ls, last, -, ⟨-, htokens⟩ | ⟨fault', hnext, htokens⟩⟩ := (Cursor.ofText text).tokenize_run
  · rw [htokens] at h
    cases h
  · rw [htokens] at h
    cases h
    obtain ⟨consumed, hover⟩ := (Cursor.over_ofText text).skip ls.length
    rw [hover.text_eq]
    exact List.mem_append_right consumed (Cursor.mem_of_next hnext c hc)

section

variable {fileName text : String} {faults : List Fault} {ds : List Diagnostic}

/-- The faults of a text without a zero are worded without one. -/
theorem zeroFree_of_parse_error (h : parse fileName text = .error faults) (htext : ZeroFree text) :
    ∀ fault ∈ faults, ZeroFree fault.message := by
  unfold parse Session.read Session.readWithin at h
  dsimp only at h
  split at h
  · cases h
  · cases h
    intro fault hfault
    rcases List.mem_append.1 hfault with hlexical | hgrammar
    · unfold Session.ofText Session.ofCursor at hlexical
      dsimp only at hlexical
      split at hlexical
      · cases hlexical
      · rename_i cause hcause
        cases List.mem_singleton.1 hlexical
        refine zeroFree_append.2 ⟨LexCause.zeroFree_message fun hz => htext ?_, Mark.zeroFree_suffix _⟩
        exact mem_of_tokenize hcause _ hz
    · obtain ⟨fault, -, rfl⟩ := List.mem_map.1 hgrammar
      exact fault.zeroFree_message

theorem takeBytes_sublist (bytes : Nat) (cs : List Char) : (takeBytes bytes cs).Sublist cs := by
  fun_induction takeBytes bytes cs with
  | case1 => exact .refl _
  | case2 c cs => exact List.nil_sublist _
  | case3 bytes c cs _ ih => exact ih.cons_cons c

theorem dropBytes_sublist (bytes : Nat) (cs : List Char) : (dropBytes bytes cs).Sublist cs := by
  fun_induction dropBytes bytes cs with
  | case1 => exact .refl _
  | case2 c cs => exact .refl _
  | case3 bytes c cs _ ih => exact ih.cons c

theorem zeroFree_slice (htext : ZeroFree text) (span : Span) : ZeroFree ((Source.ofText text).slice span) :=
  zeroFree_ofList.2 fun hz => htext (((takeBytes_sublist _ _).trans (dropBytes_sublist _ _)).mem hz)

/-- The findings in a text without a zero hold none. -/
theorem zeroFree_of_analyze {doc : Document} {model : Model} (h : parse fileName text = .ok doc)
    (htext : ZeroFree text) :
    ∀ d ∈ Analyzer.builtin.analyze doc model, ZeroFree d.ruleId ∧ ZeroFree d.message := by
  intro d hd
  obtain ⟨m, hm, hk, rfl⟩ := exists_report_of_analyze hd
  have hname : ZeroFree m.name := by
    rw [← (identifier_of_parse h hm hk).2]
    obtain ⟨_, _, _, rfl⟩ := parse_eq_ok_iff.1 h
    exact zeroFree_slice htext m.tree.span
  have hid : ZeroFree Descriptor.letSafety.id := by decide
  exact ⟨hid, zeroFree_fillTemplate (by decide) (List.forall_mem_singleton.2 hname)⟩

end

/-! ## Handing over -/

namespace Embedding

theorem handOver_of_zeroFree {text : String} (h : ZeroFree text) : handOver text = .ok text := by
  have hall : text.toList.takeWhile (· ≠ '\x00') = text.toList := by
    rw [List.takeWhile_eq_self_iff]
    intro c hc
    exact decide_eq_true fun hz => h (hz ▸ hc)
  unfold handOver
  rw [hall]
  exact if_pos rfl

/-- The octets before the first zero encode a text without a zero. -/
theorem zeroFree_of_untilZero {octets : List UInt8} {text : String} (h : untilZero octets = Text.Utf8.encode text) :
    ZeroFree text := by
  intro hz
  have hmem : (0 : UInt8) ∈ untilZero octets := by
    rw [h]
    exact List.mem_flatMap.2 ⟨_, hz, by decide⟩
  exact absurd (List.mem_takeWhile_imp hmem) (by decide)

section

variable {input : Option (List UInt8)} {text : String} {doc : Document}

/-- The host's octets before the first zero are those of a text, and the text is read as the document. -/
structure Readable (input : Option (List UInt8)) (text : String) (doc : Document) : Prop where
  octets : ∃ octets, input = some octets ∧ untilZero octets = Text.Utf8.encode text
  read : parse inputName text = .ok doc

theorem reportOn_some (octets : List UInt8) :
    reportOn (some octets) = (Text.Utf8.decode (untilZero octets)).mapError .badText >>= fun text =>
      (analyzeText inputName text).mapError .unreadable >>= fun ds =>
        .ok ((Printer.mk text inputName false).report ds, ds.length) := rfl

/-- A text that can be read is reported on, without a zero. -/
theorem Readable.reportOn_eq (h : Readable input text doc) :
    let ds := Analyzer.builtin.analyze doc (.ofTree doc.tree)
    reportOn input = .ok ((Printer.mk text inputName false).report ds, ds.length) ∧
      ZeroFree ((Printer.mk text inputName false).report ds) := by
  intro ds
  obtain ⟨⟨octets, rfl, hoctets⟩, hread⟩ := h
  have htext := zeroFree_of_untilZero hoctets
  have hname : ZeroFree inputName := by decide
  refine ⟨?_, Printer.zeroFree_report htext hname (zeroFree_of_analyze hread htext)⟩
  have hdecode := Text.Utf8.decode_eq_ok_iff.2 hoctets
  simp only [reportOn_some, hdecode, analyzeText_of_ok hread, Except.mapError, bind, Except.bind, ds]

theorem zeroFree_faultMessage (fault : Text.Utf8.Fault) : ZeroFree fault.message := by
  cases fault with
  | invalid length start =>
    refine zeroFree_append.2 ⟨zeroFree_append.2 ⟨zeroFree_append.2 ⟨?_, zeroFree_toString length⟩, ?_⟩,
      zeroFree_toString start⟩ <;> decide
  | incomplete start => exact zeroFree_append.2 ⟨by decide, zeroFree_toString start⟩

/-- Any other input fails before there is a report, and the failure is worded without a zero. -/
theorem reportOn_of_not_readable (h : ¬ ∃ text doc, Readable input text doc) :
    ∃ failure, reportOn input = .error failure ∧ ZeroFree failure.message ∧
      ∀ offset, failure ≠ .zeroInReport offset := by
  rcases input with _ | octets
  · exact ⟨.noInput, rfl, by decide, by simp⟩
  rcases hdecode : Text.Utf8.decode (untilZero octets) with fault | text
  · refine ⟨.badText fault, ?_, zeroFree_append.2 ⟨by decide, zeroFree_faultMessage fault⟩, by simp⟩
    rw [reportOn_some, hdecode]
    rfl
  · have hoctets := Text.Utf8.decode_eq_ok_iff.1 hdecode
    rcases hread : parse inputName text with faults | doc
    · refine ⟨.unreadable faults, ?_, zeroFree_append.2 ⟨by decide, zeroFree_intercalate (by decide) ?_⟩, by simp⟩
      · simp only [reportOn_some, hdecode, analyzeText_of_error hread, Except.mapError, bind, Except.bind]
      · intro message hmessage
        obtain ⟨fault, hfault, rfl⟩ := List.mem_map.1 hmessage
        exact zeroFree_of_parse_error hread (zeroFree_of_untilZero hoctets) fault hfault
    · exact absurd ⟨text, doc, ⟨octets, rfl, hoctets⟩, hread⟩ h

end

/-! ## Calls -/

theorem handedReport_of_error {input : Option (List UInt8)} {failure : Failure} (h : reportOn input = .error failure) :
    handedReport input = .error failure := by
  unfold handedReport
  rw [h]
  rfl

/-- A report without a zero is handed over as it is. -/
theorem handedReport_of_ok {input : Option (List UInt8)} {report : String} {count : Nat}
    (h : reportOn input = .ok (report, count)) (hzero : ZeroFree report) :
    handedReport input = .ok (report, count) := by
  simp only [handedReport, h, handOver_of_zeroFree hzero, Except.mapError, bind, Except.bind, pure, Except.pure]

namespace Host

variable {host : Host} {input : Option (List UInt8)}

/-- A failed analysis notes one message, without a zero in it. -/
theorem analyze_of_not_readable (h : ¬ ∃ text doc, Readable input text doc) (host : Host) :
    ∃ message, ZeroFree message ∧ host.analyze input = (⟨none, 0⟩, host.note message) := by
  obtain ⟨failure, hfailure, hzero, -⟩ := reportOn_of_not_readable h
  have hstart : ZeroFree "ncx_analyze failed: " := by decide
  refine ⟨_, zeroFree_append.2 ⟨hstart, hzero⟩, ?_⟩
  unfold Host.analyze
  rw [handedReport_of_error hfailure]

theorem analyze_of_readable {text : String} {doc : Document} (h : Readable input text doc) (host : Host) :
    let ds := Analyzer.builtin.analyze doc (.ofTree doc.tree)
    host.analyze input = (⟨some ((Printer.mk text inputName false).report ds), min ds.length countLimit⟩, host) := by
  obtain ⟨hreport, hzero⟩ := h.reportOn_eq
  unfold Host.analyze
  rw [handedReport_of_ok hreport hzero]

theorem serve_analyze {reply : Reply} {after : Host} (h : host.analyze input = (reply, after)) (counted : Bool) :
    host.serve (.analyze input counted) =
      (.analyzed reply.report (if counted then some reply.count else none), after) := by
  show (Answer.analyzed (host.analyze input).1.report (if counted then some (host.analyze input).1.count else none),
    (host.analyze input).2) = _
  rw [h]

theorem lastMessage?_of_getLast? {message : String} (hlast : host.messages.getLast? = some message)
    (hzero : ZeroFree message) : host.lastMessage? = some message := by
  unfold lastMessage?
  rw [hlast]
  show (handOver message).toOption = some message
  rw [handOver_of_zeroFree hzero]
  rfl

end Host

/-- No report is held back for a zero in it. -/
theorem handedReport_ne_zeroInReport (input : Option (List UInt8)) (offset : Nat) :
    handedReport input ≠ .error (.zeroInReport offset) := by
  intro h
  by_cases hreadable : ∃ text doc, Readable input text doc
  · obtain ⟨text, doc, hreadable⟩ := hreadable
    obtain ⟨hreport, hzero⟩ := hreadable.reportOn_eq
    cases (handedReport_of_ok hreport hzero).symm.trans h
  · obtain ⟨failure, hfailure, -, hne⟩ := reportOn_of_not_readable hreadable
    cases (handedReport_of_error hfailure).symm.trans h
    exact hne offset rfl

/-- After any calls, an analysis gives a report exactly for the octets of a text that can be read. It is the
printed report of what the analysis of the text finds, the count is as great as a host can take, and no message is
noted. Otherwise there is no report, the count is zero and one message is noted; a host that asks for the last
message gets it, as long as no other one is noted. Asking changes nothing, and no report is held back for a zero. -/
theorem report_or_message (before : List Call) (input : Option (List UInt8)) (counted : Bool) :
    let host := Host.initial.serveAll before
    let served := host.serve (.analyze input counted)
    ((∃ text doc ds, Readable input text doc ∧ analyzeText inputName text = .ok ds ∧
        served = (.analyzed (some ((Printer.mk text inputName false).report ds))
          (if counted then some (min ds.length countLimit) else none), host)) ∨
      ((¬ ∃ text doc, Readable input text doc) ∧ ∃ message,
        served = (.analyzed none (if counted then some 0 else none), ⟨host.messages ++ [message]⟩) ∧
        ∀ later, (served.2.serveAll later).messages = served.2.messages →
          (served.2.serveAll later).serve .lastMessage = (.message (some message), served.2.serveAll later))) ∧
      (host.serve .lastMessage).2 = host ∧ ∀ offset, handedReport input ≠ .error (.zeroInReport offset) := by
  intro host served
  refine ⟨?_, rfl, handedReport_ne_zeroInReport input⟩
  by_cases h : ∃ text doc, Readable input text doc
  · obtain ⟨text, doc, hreadable⟩ := h
    exact .inl ⟨text, doc, _, hreadable, analyzeText_of_ok hreadable.read,
      Host.serve_analyze (Host.analyze_of_readable hreadable host) counted⟩
  · obtain ⟨message, hzero, hanalyze⟩ := Host.analyze_of_not_readable h host
    have hserved : served = (.analyzed none (if counted then some 0 else none), ⟨host.messages ++ [message]⟩) :=
      Host.serve_analyze hanalyze counted
    refine .inr ⟨h, message, hserved, fun later hquiet => ?_⟩
    have hlast : (served.2.serveAll later).messages.getLast? = some message := by
      rw [hquiet, hserved, List.getLast?_append]
      rfl
    show (Answer.message (served.2.serveAll later).lastMessage?, _) = _
    rw [Host.lastMessage?_of_getLast? hlast hzero]

/-- A message with a zero is noted, and then octets that end at a zero are analysed but do not make up an item. -/
theorem report_or_message_unfinished :
    let host := Host.initial.serveAll [.note "a\x00", .lastMessage]
    let served := host.serve (.analyze (some [0x78, 0x00, 0xFF]) true)
    let message := "ncx_analyze failed: Failed to parse source: Expected Semicolon, got EOF. " ++
      "Expected ';' after expression at 1:2"
    host.serve .lastMessage = (.message none, host) ∧ served = (.analyzed none (some 0), ⟨["a\x00", message]⟩) ∧
      (served.2.serveAll [.lastMessage, .releaseNothing]).serve .lastMessage = (.message (some message), served.2) := by
  intro host served message
  have hserved : served = (.analyzed none (some 0), ⟨["a\x00", message]⟩) := by decide +kernel
  refine ⟨by decide +kernel, hserved, ?_⟩
  obtain ⟨⟨text, doc, ds, -, -, hreport⟩ | ⟨-, message', hmessage, hlast⟩, -⟩ :=
    report_or_message [.note "a\x00", .lastMessage] (some [0x78, 0x00, 0xFF]) true
  · cases hserved.symm.trans hreport
  · have hsame : message = message' := by
      have hmessages := congrArg (fun pair => pair.2.messages.getLast?) (hserved.symm.trans hmessage)
      simpa using hmessages
    rw [hsame]
    exact hlast [.lastMessage, .releaseNothing] rfl

end Embedding

end LetLint
