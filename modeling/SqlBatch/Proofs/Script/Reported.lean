import SqlBatch.Proofs.Script.Strict

/-!
# What statements keep

Whether statements keep their comments and their terminators is a matter of how they are reported.
The scan of a script is the same, so under any choice it fails with the same error, or the same runs
of its events are the statements. The choices tell only how the text of a run is put down: with its
comments or with a space in the place of each, and with or without the terminator behind it.

Code is never touched. From the first piece of code in a run to the last one the text is whole, and
only what is around them is trimmed.
-/

namespace SqlBatch

open Text Scanner

namespace Text

theorem Firm.trim_append {cs : List Char} (h : Firm cs) (xs ys : List Char) :
    trim (xs ++ (cs ++ ys)) = trimStart xs ++ (cs ++ trimEnd ys) := by
  obtain ⟨c, rest, hfirst, hc⟩ := h.first
  obtain ⟨d, init, hlast, hd⟩ := h.last
  have hstart {e : Char} (he : isBlank e = false) (us vs : List Char) :
      (us ++ e :: vs).dropWhile isBlank = us.dropWhile isBlank ++ e :: vs := by
    rw [List.dropWhile_append]
    split
    · rename_i hnil
      rw [List.isEmpty_iff.mp hnil, List.dropWhile_cons_of_neg (by simp [he]), List.nil_append]
    · rfl
  have hleft : trimStart (xs ++ (cs ++ ys)) = trimStart xs ++ (cs ++ ys) := by
    rw [trimStart, hfirst, List.cons_append, hstart hc]
    rfl
  have hright : (trimStart xs ++ (cs ++ ys)).reverse =
      ys.reverse ++ d :: (init.reverse ++ (trimStart xs).reverse) := by
    simp [hlast]
  rw [trim, hleft, trimEnd, hright, hstart hd, trimEnd, hlast]
  simp

theorem trimStart_of_all {cs : List Char} (h : cs.all isBlank = true) : trimStart cs = [] :=
  List.dropWhile_eq_nil_iff.mpr (List.all_eq_true.mp h)

private theorem trimEnd_of_all {cs : List Char} (h : cs.all isBlank = true) : trimEnd cs = [] := by
  have hstart : trimStart cs.reverse = [] := trimStart_of_all (by rwa [List.all_reverse])
  rw [trimEnd, ← trimStart, hstart, List.reverse_nil]

end Text

theorem exists_first {α : Type} {p : α → Bool} {xs : List α} (h : xs.any p = true) :
    ∃ lead x rest, xs = lead ++ x :: rest ∧ (∀ y ∈ lead, p y = false) ∧ p x = true := by
  rw [List.any_eq_true, ← List.find?_isSome, Option.isSome_iff_exists] at h
  obtain ⟨x, hx⟩ := h
  obtain ⟨hp, lead, rest, rfl, hlead⟩ := List.find?_eq_some_iff_append.mp hx
  exact ⟨lead, x, rest, rfl, fun y hy => by simpa using hlead y hy, hp⟩

theorem exists_core {α : Type} {p : α → Bool} {xs : List α} (h : xs.any p = true) :
    ∃ lead core trail, xs = lead ++ (core ++ trail) ∧ (∀ x ∈ lead, p x = false) ∧
      core.head?.any p = true ∧ core.getLast?.any p = true ∧ ∀ x ∈ trail, p x = false := by
  obtain ⟨lead, x, rest, rfl, hlead, hx⟩ := exists_first h
  have hlast : (x :: rest).reverse.any p = true := by
    rw [List.any_reverse, List.any_cons, hx, Bool.true_or]
  obtain ⟨trail, y, core, hrest, htrail, hy⟩ := exists_first hlast
  have hsplit : x :: rest = core.reverse ++ [y] ++ trail.reverse := by
    rw [← List.reverse_reverse (x :: rest), hrest]
    simp
  refine ⟨lead, core.reverse ++ [y], trail.reverse, by rw [hsplit], hlead, ?_, ?_, ?_⟩
  · have hhead : (core.reverse ++ [y]).head? = some x := by
      have hwhole := congrArg List.head? hsplit
      rw [List.head?_append_of_ne_nil _ (by simp)] at hwhole
      exact hwhole.symm
    rw [hhead]
    exact hx
  · rw [List.getLast?_concat]
    exact hy
  · exact fun z hz => htrail z (List.mem_reverse.mp hz)

/-- The options with other choices of what statements keep. -/
def SplitOptions.reporting (options : SplitOptions) (comments terminators : Bool) : SplitOptions :=
  { options with keepComments := comments, keepTerminators := terminators }

/-- Options that tell the same of lexemes, of the end of a script and of the terminator it begins
with have the same scans. -/
theorem scan_under (options options' : SplitOptions) (hlexis : options'.lexis = options.lexis)
    (hstrict : options'.strict = options.strict)
    (hterminator : options'.terminator = options.terminator) (hne : options.terminator ≠ "")
    (script : List Char) :
    (scan options' script).events = (scan options script).events ∧
      (scan options' script).ending = (scan options script).ending := by
  have hoptions : (scan options script).final.options = options :=
    (scan_walk options script).options_eq
  have hstart : (start options script).under options' = start options' script := by
    rw [Scanner.under, start, start, hterminator]
  have hwalk := (scan_walk options script).under hlexis
  have hstops := scan_stops hne script
  rw [hstart] at hwalk
  have hending : ((scan options script).final.under options').step.ending? =
      some (scan options script).ending := by
    rw [ending?_under (by rw [hoptions, hlexis]) (by rw [hoptions, hstrict]), hstops]
  have hscan := scan_eq_of_walk (hterminator ▸ hne) hwalk hending
  exact ⟨by rw [hscan], by rw [hscan]⟩

namespace Script

/-- Events between two cuts, and the terminator behind them if that is what ends them. -/
structure Run where
  events : List Event
  terminator : Option (List Char)

/-- The runs of a list of events that have code, given the events of the current one so far. -/
def runs (pending : List Event) : List Event → List Run
  | [] => if pending.any Event.isCode then [⟨pending, none⟩] else []
  | e :: es =>
    match e.kind with
    | .terminator =>
      (if pending.any Event.isCode then [⟨pending, some e.text⟩] else []) ++ runs [] es
    | .delimiterChange _ => runs [] es
    | .code | .comment _ | .literal _ | .blockBegin _ | .blockEnd _ => runs (pending ++ [e]) es

def Run.statement (options : SplitOptions) (r : Run) : Statement where
  text := String.ofList (trim (textOf options r.events) ++
    if options.keepTerminators then r.terminator.getD [] else [])
  terminator := r.terminator.map String.ofList

variable {options : SplitOptions}

theorem close_of_run (hempty : options.keepEmptyStatements = false) {pending : List Event}
    (hpending : ∀ e ∈ pending, e.isCut = false) (terminator : Option (List Char)) :
    close options (pending.flatMap (kept options)).reverse (pending.any Event.isCode) terminator =
      (if pending.any Event.isCode then [(⟨pending, terminator⟩ : Run)] else []).map
        (Run.statement options) := by
  rw [close, hempty, Bool.or_false, List.reverse_reverse, ← textOf_eq_flatMap_kept hpending]
  split <;> rfl

/-- The statements of events are their runs, reported. -/
theorem collect_eq_runs (hempty : options.keepEmptyStatements = false) {pending : List Event}
    (hpending : ∀ e ∈ pending, e.isCut = false) (es : List Event) :
    collect options (pending.flatMap (kept options)).reverse (pending.any Event.isCode) es =
      (runs pending es).map (Run.statement options) := by
  have hnil : ∀ e ∈ ([] : List Event), e.isCut = false := fun _ hmem => absurd hmem List.not_mem_nil
  induction es generalizing pending with
  | nil =>
      rw [collect, runs, ← close_of_run hempty hpending, hempty, Bool.false_and, Bool.or_false]
      split
      · rfl
      · rename_i hplain
        rw [close, hempty, if_neg (by simpa using hplain)]
  | cons e es ih =>
      have hnext : e.isCut = false → collect options ((kept options e).reverse ++
            (pending.flatMap (kept options)).reverse) (pending.any Event.isCode || e.isCode) es =
          (runs (pending ++ [e]) es).map (Run.statement options) := fun hcut => by
        have hwhole : ∀ f ∈ pending ++ [e], f.isCut = false :=
          List.forall_mem_append.mpr ⟨hpending, List.forall_mem_singleton.mpr hcut⟩
        rw [← ih hwhole]
        simp
      obtain ⟨kind, start, text⟩ := e
      cases kind with
      | terminator =>
          rw [runs, List.map_append, ← close_of_run hempty hpending, ← ih hnil]
          rfl
      | delimiterChange => exact ih hnil
      | code | comment | literal | blockBegin | blockEnd => exact hnext rfl

/-- Where a run stands among events: what a cut ends, or what comes last. -/
structure Run.StandsIn (events : List Event) (r : Run) : Prop where
  whole : ∀ e ∈ r.events, e.isCut = false
  code : r.events.any Event.isCode = true
  place : ∃ before after, events = before ++ (r.events ++ after) ∧
    (r.terminator = none ∧ after = [] ∨
      ∃ e more, after = e :: more ∧ e.kind = .terminator ∧ r.terminator = some e.text)

theorem Run.StandsIn.behind {r : Run} {es : List Event} (h : r.StandsIn es) (before : List Event) :
    r.StandsIn (before ++ es) := by
  obtain ⟨hwhole, hcode, init, after, rfl, hends⟩ := h
  exact ⟨hwhole, hcode, before ++ init, after, (List.append_assoc ..).symm, hends⟩

theorem standsIn_of_mem_runs {pending : List Event} (hpending : ∀ e ∈ pending, e.isCut = false)
    {es : List Event} {r : Run} (hr : r ∈ runs pending es) : r.StandsIn (pending ++ es) := by
  have hnil : ∀ e ∈ ([] : List Event), e.isCut = false := fun _ hmem => absurd hmem List.not_mem_nil
  induction es generalizing pending with
  | nil =>
      rw [runs] at hr
      split at hr
      · rename_i hcode
        obtain rfl := List.mem_singleton.mp hr
        exact ⟨hpending, hcode, [], [], rfl, .inl ⟨rfl, rfl⟩⟩
      · cases hr
  | cons e es ih =>
      have hlonger : pending ++ e :: es = pending ++ [e] ++ es := by simp
      have hnext (hcut : e.isCut = false) (hr : r ∈ runs (pending ++ [e]) es) :
          r.StandsIn (pending ++ e :: es) :=
        hlonger ▸ ih (List.forall_mem_append.mpr ⟨hpending, List.forall_mem_singleton.mpr hcut⟩) hr
      have hlater (hr : r ∈ runs [] es) : r.StandsIn (pending ++ e :: es) :=
        hlonger ▸ (ih hnil hr).behind (pending ++ [e])
      obtain ⟨kind, start, text⟩ := e
      cases kind with
      | terminator =>
          rcases List.mem_append.mp hr with hr | hr
          · split at hr
            · rename_i hcode
              obtain rfl := List.mem_singleton.mp hr
              exact ⟨hpending, hcode, [], _, rfl, .inr ⟨_, es, rfl, rfl, rfl⟩⟩
            · cases hr
          · exact hlater hr
      | delimiterChange => exact hlater hr
      | code | comment | literal | blockBegin | blockEnd => exact hnext rfl hr

/-! ### The text of a run -/

theorem textOf_append (es fs : List Event) :
    textOf options (es ++ fs) = textOf options es ++ textOf options fs := by
  unfold textOf
  split
  · exact Event.concat_append es fs
  · rw [List.map_append, Event.concat_append]

private theorem textOf_singleton {e : Event} (hcode : e.isCode = true) :
    textOf options [e] = e.text := by
  have hblanked : e.blanked = e := by
    apply Event.blanked_eq
    obtain ⟨kind, start, text⟩ := e
    cases kind <;> first | rfl | cases hcode
  unfold textOf
  split
  · exact List.append_nil _
  · rw [List.map_singleton, hblanked]
    exact List.append_nil _

theorem firm_textOf {es : List Event} (hfirm : ∀ e ∈ es, e.isCode = true → Firm e.text)
    (hfirst : es.head?.any Event.isCode = true) (hlast : es.getLast?.any Event.isCode = true) :
    Firm (textOf options es) := by
  obtain _ | ⟨e, rest⟩ := es
  · cases hfirst
  have hfirm' {f : Event} (hmem : f ∈ e :: rest) (hcode : f.isCode = true) :
      Firm (textOf options [f]) := by
    rw [textOf_singleton hcode]
    exact hfirm f hmem hcode
  cases hrest : rest.reverse with
  | nil =>
      rw [List.reverse_eq_nil_iff.mp hrest]
      exact hfirm' List.mem_cons_self hfirst
  | cons f mid =>
      obtain rfl : rest = mid.reverse ++ [f] := by
        rw [← List.reverse_reverse rest, hrest, List.reverse_cons]
      rw [← List.cons_append, List.getLast?_concat] at hlast
      have hsplit : e :: (mid.reverse ++ [f]) = [e] ++ (mid.reverse ++ [f]) := rfl
      rw [hsplit, textOf_append, textOf_append]
      exact (hfirm' List.mem_cons_self hfirst).around _ (hfirm' (by simp) hlast)

theorem all_isBlank_textOf (hcomments : options.keepComments = false) {es : List Event}
    (hwhole : ∀ e ∈ es, e.isCut = false) (hplain : ∀ e ∈ es, e.isCode = false) :
    (textOf options es).all isBlank = true := by
  rw [textOf, hcomments, if_neg Bool.false_ne_true, Event.concat, List.all_flatMap]
  rw [List.all_eq_true]
  intro e he
  obtain ⟨f, hf, rfl⟩ := List.mem_map.mp he
  have hcut := hwhole f hf
  have hcode := hplain f hf
  obtain ⟨kind, start, text⟩ := f
  cases kind with
  | code => simpa [Event.isCode, Event.blanked] using hcode
  | comment => rfl
  | literal | blockBegin | blockEnd => cases hcode
  | terminator | delimiterChange => cases hcut

/-- How a run is reported. With its terminator a statement ends in that and is else the same. Its
text is the text of the run, trimmed, in which comments are kept or each is a space. And from the
first piece of code to the last one nothing is trimmed. -/
structure Run.Reported (options : SplitOptions) (r : Run) : Prop where
  terminator : ∀ comments, (r.statement (options.reporting comments true)).text =
    (r.statement (options.reporting comments false)).text ++
      (r.terminator.map String.ofList).getD ""
  commented : (r.statement (options.reporting true false)).text =
    String.ofList (trim (Event.concat r.events))
  uncommented : (r.statement (options.reporting false false)).text =
    String.ofList (trim (Event.concat (r.events.map Event.blanked)))
  core : ∃ lead core trail, r.events = lead ++ (core ++ trail) ∧
    (∀ e ∈ lead, e.isCode = false) ∧ (∀ e ∈ trail, e.isCode = false) ∧
    (r.statement (options.reporting true false)).text = String.ofList
      (trimStart (Event.concat lead) ++ (Event.concat core ++ trimEnd (Event.concat trail))) ∧
    (r.statement (options.reporting false false)).text =
      String.ofList (Event.concat (core.map Event.blanked))

theorem reported_of_run {r : Run} (hwhole : ∀ e ∈ r.events, e.isCut = false)
    (hcode : r.events.any Event.isCode = true)
    (hfirm : ∀ e ∈ r.events, e.isCode = true → Firm e.text) : r.Reported options := by
  have hplain (comments : Bool) : (r.statement (options.reporting comments false)).text =
      String.ofList (trim (textOf (options.reporting comments false) r.events)) := by
    simp [Run.statement, SplitOptions.reporting]
  refine ⟨fun comments => ?_, hplain true, hplain false, ?_⟩
  · calc (r.statement (options.reporting comments true)).text
        = String.ofList (trim (textOf (options.reporting comments false) r.events) ++
            r.terminator.getD []) := rfl
      _ = _ := by
        rw [hplain, String.ofList_append]
        cases r.terminator <;> rfl
  · obtain ⟨lead, core, trail, hevents, hlead, hfirst, hlast, htrail⟩ := exists_core hcode
    rw [hevents] at hwhole hfirm
    have hcore (comments : Bool) : Firm (textOf (options.reporting comments false) core) :=
      firm_textOf (fun e he => hfirm e (by simp [he])) hfirst hlast
    have htext (comments : Bool) : (r.statement (options.reporting comments false)).text =
        String.ofList (trimStart (textOf (options.reporting comments false) lead) ++
          (textOf (options.reporting comments false) core ++
            trimEnd (textOf (options.reporting comments false) trail))) := by
      rw [hplain, hevents, textOf_append, textOf_append, (hcore comments).trim_append]
    refine ⟨lead, core, trail, hevents, hlead, htrail, htext true, ?_⟩
    rw [htext,
      trimStart_of_all (all_isBlank_textOf rfl (fun e he => hwhole e (by simp [he])) hlead),
      trimEnd_of_all (all_isBlank_textOf rfl (fun e he => hwhole e (by simp [he])) htrail),
      List.nil_append, List.append_nil]
    rfl

/-! ### Splitting -/

/-- The four ways to report a script read the same scan. -/
theorem splitStatements_reporting_eq (hvalid : options.Valid) (comments terminators : Bool)
    (script : String) :
    splitStatements (options.reporting comments terminators) script =
      match (scan options script.toList).error? script.toList with
      | some e => .error e
      | none => .ok (collect (options.reporting comments terminators) [] false
          (scan options script.toList).events) := by
  have hreporting : (options.reporting comments terminators).Valid := hvalid
  obtain ⟨hevents, hending⟩ := scan_under options (options.reporting comments terminators)
    rfl rfl rfl (SplitOptions.terminator_ne_empty hvalid.1) script.toList
  have hsame : (scan (options.reporting comments terminators) script.toList).error?
      script.toList = (scan options script.toList).error? script.toList := by
    rw [Scan.error?, Scan.error?, hending]
  refine (splitStatements_eq hreporting script).trans ?_
  cases herror : (scan options script.toList).error? script.toList with
  | some e => simp only [hsame, herror]
  | none => simp only [hsame, herror, hevents]

/-- **What statements keep moves no boundary.** Where empty statements are dropped, the four ways to
keep or not to keep comments and terminators fail with the same error, or report the same runs of
events, with the same terminators. -/
theorem splitStatements_reporting (hvalid : options.Valid)
    (hempty : options.keepEmptyStatements = false) (script : String) :
    let events := (scan options script.toList).events
    (∃ e, ∀ comments terminators,
      splitStatements (options.reporting comments terminators) script = .error e) ∨
    ((∀ comments terminators,
        splitStatements (options.reporting comments terminators) script =
          .ok ((runs [] events).map (Run.statement (options.reporting comments terminators)))) ∧
      ∀ r ∈ runs [] events, r.StandsIn events ∧ r.Reported options) := by
  intro events
  have hnil : ∀ e ∈ ([] : List Event), e.isCut = false := fun _ hmem => absurd hmem List.not_mem_nil
  cases herror : (scan options script.toList).error? script.toList with
  | some e =>
      refine .inl ⟨e, fun comments terminators => ?_⟩
      rw [splitStatements_reporting_eq hvalid, herror]
  | none =>
      refine .inr ⟨fun comments terminators => ?_, fun r hr => ?_⟩
      · have hempty : (options.reporting comments terminators).keepEmptyStatements = false := hempty
        rw [splitStatements_reporting_eq hvalid, herror]
        exact congrArg Except.ok (collect_eq_runs hempty hnil events)
      · have hstands := standsIn_of_mem_runs hnil hr
        refine ⟨hstands, reported_of_run hstands.whole hstands.code fun e he => ?_⟩
        obtain ⟨before, after, hevents, -⟩ := hstands.place
        rw [List.nil_append] at hevents
        refine (scan_walk options script.toList).firm e ?_
        change e ∈ events
        rw [hevents]
        simp [he]

/-- A comment in front of a statement, one within it, one behind it and one by itself; and one that
is none, for it stands in a literal. -/
theorem splitStatements_reporting_comments :
    let options : SplitOptions := {}
    let script := "/*a*/x'/*b*/'/*c*/y--d\n;--e\n;z"
    options.Valid ∧ options.keepEmptyStatements = false ∧
    splitStatements (options.reporting false false) script =
      .ok [{ text := "x'/*b*/' y", terminator := some ";" }, { text := "z" }] ∧
    splitStatements (options.reporting true true) script =
      .ok [{ text := "/*a*/x'/*b*/'/*c*/y--d;", terminator := some ";" }, { text := "z" }] ∧
    ∀ comments terminators, splitStatements (options.reporting comments terminators) script =
      .ok ((runs [] (scan options script.toList).events).map
        (Run.statement (options.reporting comments terminators))) := by
  have hvalid : ({} : SplitOptions).Valid := by decide
  refine ⟨hvalid, rfl, by decide +kernel, by decide +kernel, ?_⟩
  rcases splitStatements_reporting hvalid rfl "/*a*/x'/*b*/'/*c*/y--d\n;--e\n;z" with
    ⟨e, he⟩ | ⟨hruns, -⟩
  · have hok : (splitStatements (({} : SplitOptions).reporting false false)
        "/*a*/x'/*b*/'/*c*/y--d\n;--e\n;z").isOk = true := by decide +kernel
    rw [he] at hok
    cases hok
  · exact hruns

end Script

end SqlBatch
