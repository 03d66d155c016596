import Waitbus.RowFrame

/-! The summary contract of the event frame: one line, at most 400 characters. Only the body of an
agent message is cut and only the title of a run is kept to its first line, so a row meets the
contract exactly when the other texts that its facet prints do. -/

namespace Waitbus.SummaryBound
open Python Json FrameCodec EventStore Summary RowFrame

def OneLine (s : PyStr) : Prop :=
  ∀ c ∈ s, isLineBreak c = false

instance (s : PyStr) : Decidable (OneLine s) :=
  inferInstanceAs (Decidable (∀ c ∈ s, isLineBreak c = false))

def maxSummaryChars : Nat := 400

/-- `"summary": "<one line, <= 400 chars>"`. -/
def Bounded (s : PyStr) : Prop :=
  OneLine s ∧ s.length ≤ maxSummaryChars

instance (s : PyStr) : Decidable (Bounded s) :=
  inferInstanceAs (Decidable (_ ∧ _))

/-- Texts of one line each that fill no more than `room` together. -/
def FitIn (room : Nat) (texts : List PyStr) : Prop :=
  (∀ text ∈ texts, OneLine text) ∧ (texts.map List.length).sum ≤ room

instance (room : Nat) (texts : List PyStr) : Decidable (FitIn room texts) :=
  inferInstanceAs (Decidable (_ ∧ _))

def collapsedBody (row : Row) : PyStr :=
  join (ofText " ") (splitWords (orText row.msgBody ""))

/-- What the summary of a row is made of: the texts its facet prints, the body of a message apart,
and the characters that the wording of the facet and such a body leave for them. -/
def summaryTexts (R : Runtime) (row : Row) : Except PyExc (Nat × List PyStr) := do
  let payload ← decodePayload R row
  let ending := [iso R row, ofText row.ingestMethod]
  if row.eventType = "agent_message" ∨ row.msgBody.isSome then
    return (383 - min (collapsedBody row).length maxBodyDisplayChars,
      [orText row.msgFrom "?", orText row.msgTo "?"] ++ ending)
  match row.alertName with
  | some alertName =>
    return (371, [ofText alertName, orText row.alertSeverity "?",
      orText row.alertFingerprint "?"] ++ ending)
  | none =>
    if row.eventType = "workflow_job" then do
      let branch ← jobBranch R row payload
      return (361, [branch, orText row.jobName "?", intText row.jobId, intText row.parentRunId,
        orText row.status "?", orText row.conclusion "pending"] ++ ending)
    else do
      let (event, title) ← runTexts R payload
      return (if title ≠ [] then 373 else 375, [orText row.headBranch "?",
        orText row.workflowName "?", intText row.runId, event, title, orText row.status "?",
        orText row.conclusion "pending"] ++ ending)

/-- The texts that the row's summary prints are one line each and leave it within the bound; where
reading the payload raises, these are the four of the fallback. -/
def SummaryFits (R : Runtime) (row : Row) : Prop :=
  match summaryTexts R row with
  | .ok (room, texts) => FitIn room texts
  | .error _ =>
    FitIn 397 [ofText row.owner, ofText row.repo, ofText row.eventType, ofText row.deliveryId]

section Lines

variable {s t : PyStr}

@[simp] theorem oneLine_append : OneLine (s ++ t) ↔ OneLine s ∧ OneLine t :=
  List.forall_mem_append

theorem OneLine.sublist (h : OneLine t) (hs : s.Sublist t) : OneLine s :=
  fun c hc => h c (hs.subset hc)

theorem isSpace_of_isLineBreak {c : PyChar} (h : isLineBreak c = true) : isSpace c = true := by
  cases c with
  | surrogate unit => cases h
  | scalar c =>
    simp only [isLineBreak, isSpace, Bool.or_eq_true, Bool.and_eq_true, decide_eq_true_eq,
      List.contains_cons, List.contains_nil, beq_iff_eq, Bool.false_eq_true, or_false] at h ⊢
    omega

theorem oneLine_words (s : PyStr) : OneLine (join (ofText " ") (splitWords s)) := by
  refine forall_mem_join (P := (isLineBreak · = false)) (by decide) fun word hword c hc => ?_
  have hspace := (mem_splitOnP (List.mem_filter.mp hword).1 c hc).2
  by_contra hbreak
  have hbreak := isSpace_of_isLineBreak (Bool.eq_true_of_not_eq_false hbreak)
  rw [hspace] at hbreak
  cases hbreak

end Lines

section Facets

variable {R : Runtime} {row : Row}

theorem oneLine_tail :
    OneLine (tail R row) ↔ OneLine (iso R row) ∧ OneLine (ofText row.ingestMethod) := by
  have hat : OneLine (ofText " at ") := by decide
  have hsrc : OneLine (ofText " [src=") := by decide
  have hclose : OneLine (ofText "]") := by decide
  simp only [tail, oneLine_append, hat, hsrc, hclose, true_and, and_true]

theorem length_tail : (tail R row).length =
    11 + (iso R row).length + (ofText row.ingestMethod).length := by
  have hat : (ofText " at ").length = 4 := by decide
  have hsrc : (ofText " [src=").length = 6 := by decide
  have hclose : (ofText "]").length = 1 := by decide
  simp only [tail, List.length_append]
  omega

theorem bounded_iff {s : PyStr} {room : Nat} {texts : List PyStr}
    (hline : OneLine s ↔ ∀ text ∈ texts, OneLine text)
    (hlen : s.length + room = maxSummaryChars + (texts.map List.length).sum) :
    Bounded s ↔ FitIn room texts := by
  unfold Bounded FitIn
  rw [hline]
  exact and_congr_right fun _ => by omega

theorem formatAgentMessage_body (R : Runtime) (row : Row) :
    ∃ shown, formatAgentMessage R row = orText row.msgFrom "?" ++ ofText " -> " ++
        orText row.msgTo "?" ++ ofText ": " ++ shown ++ tail R row ∧ OneLine shown ∧
      shown.length = min (collapsedBody row).length maxBodyDisplayChars := by
  have hbody : OneLine (collapsedBody row) := oneLine_words _
  have hdots : OneLine (ofText "...") ∧ (ofText "...").length = 3 := by decide
  by_cases hlong : (collapsedBody row).length > maxBodyDisplayChars
  · refine ⟨(collapsedBody row).take bodyTruncatePrefixChars ++ ofText "...", ?_, ?_, ?_⟩
    · simp only [formatAgentMessage]
      rw [← collapsedBody, if_pos hlong]
    · exact oneLine_append.mpr ⟨hbody.sublist (List.take_sublist _ _), hdots.1⟩
    · simp only [List.length_append, List.length_take, hdots.2, bodyTruncatePrefixChars,
        maxBodyDisplayChars] at hlong ⊢
      omega
  · refine ⟨collapsedBody row, ?_, hbody, by omega⟩
    simp only [formatAgentMessage]
    rw [← collapsedBody, if_neg hlong]

theorem formatAgentMessage_bounded : Bounded (formatAgentMessage R row) ↔
    FitIn (383 - min (collapsedBody row).length maxBodyDisplayChars) [orText row.msgFrom "?",
      orText row.msgTo "?", iso R row, ofText row.ingestMethod] := by
  obtain ⟨shown, hshown, hline, hlen⟩ := formatAgentMessage_body R row
  have harrow : OneLine (ofText " -> ") ∧ (ofText " -> ").length = 4 := by decide
  have hcolon : OneLine (ofText ": ") ∧ (ofText ": ").length = 2 := by decide
  rw [hshown]
  refine bounded_iff ?_ ?_
  · simp [oneLine_tail, harrow.1, hcolon.1, hline]
  · simp only [List.length_append, length_tail, harrow.2, hcolon.2, hlen, maxSummaryChars,
      maxBodyDisplayChars, List.map_cons, List.map_nil, List.sum_cons, List.sum_nil]
    omega

theorem formatAlert_bounded (alertName : String) : Bounded (formatAlert R row alertName) ↔
    FitIn 371 [ofText alertName, orText row.alertSeverity "?", orText row.alertFingerprint "?",
      iso R row, ofText row.ingestMethod] := by
  have hopen : OneLine (ofText " [") ∧ (ofText " [").length = 2 := by decide
  have hfp : OneLine (ofText "] (fingerprint=") ∧ (ofText "] (fingerprint=").length = 15 := by
    decide
  have hclose : OneLine (ofText ")") ∧ (ofText ")").length = 1 := by decide
  refine bounded_iff ?_ ?_
  · simp [formatAlert, oneLine_tail, hopen.1, hfp.1, hclose.1]
  · simp only [formatAlert, List.length_append, length_tail, hopen.2, hfp.2, hclose.2,
      maxSummaryChars, List.map_cons, List.map_nil, List.sum_cons, List.sum_nil]
    omega

theorem formatWorkflowJob_bounded {payload : Value} {branch : PyStr}
    (hbranch : jobBranch R row payload = .ok branch) :
    ∃ s, formatWorkflowJob R row payload = .ok s ∧ (Bounded s ↔
      FitIn 361 [branch, orText row.jobName "?", intText row.jobId, intText row.parentRunId,
        orText row.status "?", orText row.conclusion "pending", iso R row,
        ofText row.ingestMethod]) := by
  have hjob : OneLine (ofText " job '") ∧ (ofText " job '").length = 6 := by decide
  have hid : OneLine (ofText "' (job_id=") ∧ (ofText "' (job_id=").length = 10 := by decide
  have hrun : OneLine (ofText ", run=") ∧ (ofText ", run=").length = 6 := by decide
  have hclose : OneLine (ofText ") -- ") ∧ (ofText ") -- ").length = 5 := by decide
  have hslash : OneLine (ofText "/") ∧ (ofText "/").length = 1 := by decide
  simp only [formatWorkflowJob, hbranch, bind, Except.bind, pure, Except.pure]
  refine ⟨_, rfl, bounded_iff ?_ ?_⟩
  · simp [oneLine_tail, hjob.1, hid.1, hrun.1, hclose.1, hslash.1]
  · simp only [List.length_append, length_tail, hjob.2, hid.2, hrun.2, hclose.2, hslash.2,
      maxSummaryChars, List.map_cons, List.map_nil, List.sum_cons, List.sum_nil]
    omega

theorem formatWorkflowRun_bounded {payload : Value} {event title : PyStr}
    (htexts : runTexts R payload = .ok (event, title)) :
    ∃ s, formatWorkflowRun R row payload = .ok s ∧ (Bounded s ↔
      FitIn (if title ≠ [] then 373 else 375) [orText row.headBranch "?",
        orText row.workflowName "?", intText row.runId, event, title, orText row.status "?",
        orText row.conclusion "pending", iso R row, ofText row.ingestMethod]) := by
  have hspace : OneLine (ofText " ") ∧ (ofText " ").length = 1 := by decide
  have hrun : OneLine (ofText " run ") ∧ (ofText " run ").length = 5 := by decide
  have hopen : OneLine (ofText " (") ∧ (ofText " (").length = 2 := by decide
  have hcomma : OneLine (ofText ", ") ∧ (ofText ", ").length = 2 := by decide
  have hclose : OneLine (ofText ") -- ") ∧ (ofText ") -- ").length = 5 := by decide
  have hslash : OneLine (ofText "/") ∧ (ofText "/").length = 1 := by decide
  have hnil : OneLine [] := fun c hc => absurd hc List.not_mem_nil
  simp only [formatWorkflowRun, htexts, bind, Except.bind, pure, Except.pure]
  refine ⟨_, rfl, ?_⟩
  by_cases htitle : title = []
  · refine bounded_iff ?_ ?_
    · simp [oneLine_tail, htitle, hspace.1, hrun.1, hopen.1, hclose.1, hslash.1, hnil]
    · simp only [htitle, ne_eq, not_true_eq_false, if_false, List.length_append, length_tail,
        hspace.2, hrun.2, hopen.2, hclose.2, hslash.2, List.length_nil, maxSummaryChars,
        List.map_cons, List.map_nil, List.sum_cons, List.sum_nil]
      omega
  · refine bounded_iff ?_ ?_
    · simp [oneLine_tail, htitle, hspace.1, hrun.1, hopen.1, hcomma.1, hclose.1, hslash.1]
    · simp only [htitle, ne_eq, not_false_eq_true, if_true, List.length_append, length_tail,
        hspace.2, hrun.2, hopen.2, hcomma.2, hclose.2, hslash.2, maxSummaryChars,
        List.map_cons, List.map_nil, List.sum_cons, List.sum_nil]
      omega

theorem fallbackSummary_bounded : Bounded (fallbackSummary row) ↔
    FitIn 397 [ofText row.owner, ofText row.repo, ofText row.eventType,
      ofText row.deliveryId] := by
  have hslash : OneLine (ofText "/") ∧ (ofText "/").length = 1 := by decide
  have hspace : OneLine (ofText " ") ∧ (ofText " ").length = 1 := by decide
  refine bounded_iff ?_ ?_
  · simp [fallbackSummary, hslash.1, hspace.1]
  · simp only [fallbackSummary, List.length_append, hslash.2, hspace.2, maxSummaryChars,
      List.map_cons, List.map_nil, List.sum_cons, List.sum_nil]
    omega

end Facets

section Rows

variable {R : Runtime} {row : Row}

theorem formatText_bounded (R : Runtime) (row : Row) :
    match summaryTexts R row with
    | .ok (room, texts) => ∃ s, formatText R row = .ok s ∧ (Bounded s ↔ FitIn room texts)
    | .error exc => formatText R row = .error exc := by
  unfold summaryTexts formatText
  cases hpayload : decodePayload R row with
  | error exc => rfl
  | ok payload =>
    by_cases hmsg : row.eventType = "agent_message" ∨ row.msgBody.isSome
    · simp only [bind, Except.bind, if_pos hmsg, pure, Except.pure]
      exact ⟨_, rfl, formatAgentMessage_bounded⟩
    cases halert : row.alertName with
    | some alertName =>
      simp only [bind, Except.bind, if_neg hmsg, pure, Except.pure]
      exact ⟨_, rfl, formatAlert_bounded alertName⟩
    | none =>
      simp only [bind, Except.bind, if_neg hmsg, pure, Except.pure]
      by_cases hjob : row.eventType = "workflow_job"
      · simp only [if_pos hjob]
        cases hbranch : jobBranch R row payload with
        | error exc => simp only [formatWorkflowJob, hbranch, bind, Except.bind]
        | ok branch => exact formatWorkflowJob_bounded hbranch
      · simp only [if_neg hjob]
        cases htexts : runTexts R payload with
        | error exc => simp only [formatWorkflowRun, htexts, bind, Except.bind]
        | ok texts => exact formatWorkflowRun_bounded htexts

/-- For every row that a frame is made of, the summary meets its contract exactly when the texts
that it prints of the row do. -/
theorem summary_bounded_iff {frame : EventFrame} (h : rowToFrame R row = .ok frame) :
    Bounded frame.summary ↔ SummaryFits R row := by
  have hsummary := (rowToFrame_ok h).2.2.2
  have htexts := formatText_bounded R row
  unfold summaryFor at hsummary
  unfold SummaryFits
  cases hparts : summaryTexts R row with
  | ok parts =>
    rw [hparts] at htexts
    obtain ⟨s, hs, hbound⟩ := htexts
    rw [hs] at hsummary
    rw [← Except.ok.inj hsummary]
    exact hbound
  | error exc =>
    rw [hparts] at htexts
    simp only [htexts] at hsummary
    split at hsummary
    · rw [← Except.ok.inj hsummary]
      exact fallbackSummary_bounded
    · cases hsummary

end Rows

section Samples

def alertEvent (alertName : String) : EventInsert :=
  { sampleEvent 1 with eventType := "prometheus_alert", alertName := some alertName }

theorem alert_frame {row : Row} {alertName : String} (htype : row.eventType = "prometheus_alert")
    (hpayload : row.payloadJson = "{}") (hbody : row.msgBody = none)
    (halert : row.alertName = some alertName) : ∃ frame,
      rowToFrame .reference row = .ok frame ∧
        frame.summary = formatAlert .reference row alertName := by
  have hdecoded : decodePayload .reference row = .ok (.obj []) := by
    rw [decodePayload, hpayload]
    rfl
  have htext : formatText .reference row = .ok (formatAlert .reference row alertName) := by
    simp [formatText, hdecoded, htype, hbody, halert, bind, Except.bind, pure, Except.pure]
  simp only [rowToFrame, summaryFor, htext, bind, Except.bind, pure, Except.pure]
  exact ⟨_, rfl, rfl⟩

theorem alert_stored (alertName : String) : ∃ t row frame,
    Store.empty.insertEvent (alertEvent alertName) (ulidAt 1) = .ok (true, t) ∧ row ∈ t.rows ∧
      rowToFrame .reference row = .ok frame ∧
      frame.summary = formatAlert .reference row alertName ∧ row.alertSeverity = none ∧
      row.alertFingerprint = none ∧ row.ingestMethod = "api" := by
  obtain ⟨t, row, hinsert, hrows, htype, hpayload, hbody, halert, hsev, hfp, hmethod⟩ :
      ∃ t row, Store.empty.insertEvent (alertEvent alertName) (ulidAt 1) = .ok (true, t) ∧
        t.rows = [row] ∧ row.eventType = "prometheus_alert" ∧ row.payloadJson = "{}" ∧
        row.msgBody = none ∧ row.alertName = some alertName ∧ row.alertSeverity = none ∧
        row.alertFingerprint = none ∧ row.ingestMethod = "api" :=
    ⟨_, _, rfl, rfl, rfl, rfl, rfl, rfl, rfl, rfl, rfl⟩
  obtain ⟨frame, hframe, hsummary⟩ := alert_frame htype hpayload hbody halert
  exact ⟨t, row, frame, hinsert, by simp [hrows], hframe, hsummary, hsev, hfp, hmethod⟩

theorem formatAlert_begins (R : Runtime) (row : Row) (alertName : String) :
    ofText alertName <+: formatAlert R row alertName := by
  simp only [formatAlert, List.append_assoc]
  exact List.prefix_append _ _

/-- The frame of a stored alert with a short name meets the contract. -/
theorem summary_bounded_alert : ∃ row frame, rowToFrame .reference row = .ok frame ∧
    Bounded frame.summary ∧ (Bounded frame.summary ↔ SummaryFits .reference row) := by
  obtain ⟨t, row, frame, -, -, hframe, hsummary, hsev, hfp, hmethod⟩ := alert_stored "disk full"
  refine ⟨row, frame, hframe, ?_, summary_bounded_iff hframe⟩
  have hiso : iso .reference row = ofText "2001-09-09T01:46:40Z" := rfl
  rw [hsummary, formatAlert_bounded, hsev, hfp, hmethod, hiso]
  decide

/-- A stored alert whose summary is two lines, and one whose summary is too long. -/
theorem summary_unbounded :
    (∃ t row frame,
      Store.empty.insertEvent (alertEvent "disk\nfull") (ulidAt 1) = .ok (true, t) ∧
        row ∈ t.rows ∧ rowToFrame .reference row = .ok frame ∧ ¬OneLine frame.summary) ∧
    ∃ t row frame, Store.empty.insertEvent (alertEvent (String.ofList (List.replicate 401 'a')))
          (ulidAt 1) = .ok (true, t) ∧
        row ∈ t.rows ∧ rowToFrame .reference row = .ok frame ∧
        maxSummaryChars < frame.summary.length := by
  constructor
  · obtain ⟨t, row, frame, hinsert, hrow, hframe, hsummary, -⟩ := alert_stored "disk\nfull"
    refine ⟨t, row, frame, hinsert, hrow, hframe, fun hline => ?_⟩
    rw [hsummary] at hline
    have hname : OneLine (ofText "disk\nfull") :=
      hline.sublist (formatAlert_begins _ _ _).sublist
    revert hname
    decide
  · obtain ⟨t, row, frame, hinsert, hrow, hframe, hsummary, -⟩ :=
      alert_stored (String.ofList (List.replicate 401 'a'))
    refine ⟨t, row, frame, hinsert, hrow, hframe, ?_⟩
    have hlen := (formatAlert_begins .reference row
      (String.ofList (List.replicate 401 'a'))).length_le
    rw [ofText, List.length_map, String.toList_ofList, List.length_replicate] at hlen
    rw [hsummary]
    exact hlen

end Samples

end Waitbus.SummaryBound
