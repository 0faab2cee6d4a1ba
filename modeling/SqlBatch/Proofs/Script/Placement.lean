import Mathlib.Data.List.Basic
import SqlBatch.Script.Split
import SqlBatch.Proofs.Failing
import SqlBatch.Proofs.Script.Trim

/-!
# Where statements stand

The statements of a script stand in it, one after another. A terminator or a directive cuts the
script; what stands between two cuts is a statement, or it is dropped. Whether it is dropped is told
twice, by the splitter and by the scanner, which takes a directive only before the statement has
code. The two agree at every event: both mean that an event since the last cut is code.
-/

namespace SqlBatch

open Text Scanner

structure Span where
  start : Nat
  stop : Nat
  deriving DecidableEq, Repr

namespace Span

def Contains (r : Span) (e : Event) : Prop := r.start ≤ e.start ∧ e.stop ≤ r.stop

def Misses (r : Span) (e : Event) : Prop := e.stop ≤ r.start ∨ r.stop ≤ e.start

/-- Where a text stands without the blanks at its ends, given where it stands with them. -/
def ofTrimmed (offset : Nat) (cs : List Char) : Span where
  start := offset + byteLength (cs.takeWhile isBlank)
  stop := offset + byteLength (cs.takeWhile isBlank) + byteLength (trim cs)

end Span

namespace Event

/-- Whether a statement ends at the event, or what stands before it is dropped. -/
def isCut (e : Event) : Bool :=
  match e.kind with
  | .terminator | .delimiterChange _ => true
  | .code | .comment _ | .literal _ | .blockBegin _ | .blockEnd _ => false

private theorem not_isCode_of_isCut {e : Event} (h : e.isCut = true) : e.isCode = false := by
  obtain ⟨kind, start, text⟩ := e
  cases kind <;> first | rfl | cases h

/-! ### Offsets of events -/

theorem Contiguous.append {offset : Nat} {es fs : List Event} (h : Contiguous offset (es ++ fs)) :
    Contiguous offset es ∧ Contiguous (offset + byteLength (concat es)) fs := by
  induction es generalizing offset with
  | nil => exact ⟨trivial, h⟩
  | cons e es ih =>
      obtain ⟨hstart, htext, hrest⟩ := h
      obtain ⟨hfirst, hsecond⟩ := ih hrest
      refine ⟨⟨hstart, htext, hfirst⟩, ?_⟩
      rwa [concat_cons, byteLength_append, ← Nat.add_assoc, ← hstart]

theorem Contiguous.bounds {offset : Nat} {es : List Event} (h : Contiguous offset es) :
    ∀ e ∈ es, offset ≤ e.start ∧ e.start < e.stop ∧
      e.stop ≤ offset + byteLength (concat es) := by
  induction es generalizing offset with
  | nil => exact fun _ hmem => absurd hmem List.not_mem_nil
  | cons f es ih =>
      obtain ⟨hstart, htext, hrest⟩ := h
      have hpos := byteLength_pos htext
      intro e hmem
      rw [concat_cons, byteLength_append]
      rcases List.mem_cons.mp hmem with rfl | hmem
      · simp only [stop]
        omega
      · have hbounds := ih hrest e hmem
        simp only [stop] at hbounds ⊢
        omega

end Event

/-! ### Trimmed ranges -/

namespace Span

theorem ofTrimmed_bounds (offset : Nat) (cs : List Char) :
    offset ≤ (ofTrimmed offset cs).start ∧
      (ofTrimmed offset cs).start ≤ (ofTrimmed offset cs).stop ∧
      (ofTrimmed offset cs).stop ≤ offset + byteLength cs := by
  obtain ⟨post, hpost⟩ := eq_append_trim cs
  have hlength := congrArg byteLength hpost
  rw [byteLength_append, byteLength_append] at hlength
  simp only [ofTrimmed]
  omega

private theorem standsAt_trim {script cs : List Char} {offset : Nat}
    (h : StandsAt script offset cs) : StandsAt script (ofTrimmed offset cs).start (trim cs) := by
  obtain ⟨post, hpost⟩ := eq_append_trim cs
  rw [hpost] at h
  exact h.append.2.append.1

theorem ofTrimmed_contains {offset : Nat} {es : List Event} (hes : Event.Contiguous offset es)
    {e : Event} (hmem : e ∈ es) (hfirm : Firm e.text) :
    (ofTrimmed offset (Event.concat es)).Contains e := by
  obtain ⟨before, after, rfl⟩ := List.append_of_mem hmem
  obtain ⟨-, hstart, -⟩ := hes.append
  obtain ⟨pre, post, hbefore, htrim⟩ :=
    hfirm.within_trim (Event.concat before) (Event.concat after)
  have hlength := congrArg byteLength hbefore
  have htrimLength := congrArg byteLength htrim
  simp only [byteLength_append] at hlength htrimLength
  simp only [Contains, ofTrimmed, Event.concat_append, Event.concat_cons, Event.stop, hstart,
    htrimLength]
  omega

end Span

namespace Scanner

/-! ### The code of the current statement -/

theorem hasCode_of_step {s t : Scanner} {e : Event} (h : s.step = .event e t) :
    t.hasCode = (!e.isCut && (s.hasCode || e.isCode)) := by
  rw [advance_of_step h]
  obtain ⟨kind, start, text⟩ := e
  cases kind <;> rfl

theorem hasCode_of_directive {s t : Scanner} {e : Event} {delimiter : List Char}
    (h : s.step = .event e t) (hkind : e.kind = .delimiterChange delimiter) :
    s.hasCode = false := by
  obtain ⟨c, cs, hrest, hlexed, -, -, -⟩ := step_eq_event h
  rw [hkind] at hlexed
  obtain ⟨m, hnamed⟩ := hlexed.named_of_delimiterChange
  exact (directive?_eq_some hnamed).2.1

private theorem Walk.hasCode_eq {s t : Scanner} {es : List Event} (h : Walk s es t)
    (hwhole : ∀ e ∈ es, e.isCut = false) : t.hasCode = (s.hasCode || es.any Event.isCode) := by
  induction h with
  | nil s => rw [List.any_nil, Bool.or_false]
  | cons step walk ih =>
      obtain ⟨hcut, hrest⟩ := List.forall_mem_cons.mp hwhole
      rw [ih hrest, hasCode_of_step step, hcut, List.any_cons, Bool.not_false, Bool.true_and,
        Bool.or_assoc]

end Scanner

/-- What a directive drops is never code. -/
theorem not_isCode_of_scan_eq {options : SplitOptions} {script : List Char}
    {before dropped after : List Event} {e : Event} {delimiter : List Char}
    (hevents : (scan options script).events = before ++ dropped ++ e :: after)
    (hkind : e.kind = .delimiterChange delimiter) (hwhole : ∀ f ∈ dropped, f.isCut = false) :
    ∀ f ∈ dropped, f.isCode = false := by
  obtain ⟨s, t, hwalk, hstep⟩ := exists_step_of_scan_eq hevents
  obtain ⟨u, -, hdropped⟩ := hwalk.split
  have hcode := hdropped.hasCode_eq hwhole
  rw [hasCode_of_directive hstep hkind, eq_comm, Bool.or_eq_false_iff, List.any_eq_false] at hcode
  intro f hf
  rw [← Bool.not_eq_true]
  exact hcode.2 f hf

namespace Script

/-! ### Statements of events -/

/-- The statement of a text, with the terminator that ended it. -/
def statementOf (cs : List Char) (terminator : Option (List Char)) : Statement where
  text := String.ofList (trim cs)
  terminator := terminator.map String.ofList

/-- Events from an offset on, and the statements of which they are the script, each with the range
where it stands. A piece between two cuts that has code is a statement, and so is the piece after
the last cut. -/
inductive Cut : Nat → List Event → List (Span × Statement) → Prop
  | tail {offset : Nat} {es : List Event} (whole : ∀ e ∈ es, e.isCut = false)
      (plain : ∀ e ∈ es, e.isCode = false) : Cut offset es []
  | last {offset : Nat} {es : List Event} (whole : ∀ e ∈ es, e.isCut = false) :
      Cut offset es [(.ofTrimmed offset (Event.concat es), statementOf (Event.concat es) none)]
  | dropped {offset : Nat} {es fs : List Event} {e : Event} {placed : List (Span × Statement)}
      (whole : ∀ e ∈ es, e.isCut = false) (plain : ∀ e ∈ es, e.isCode = false)
      (cut : e.isCut = true) (more : Cut e.stop fs placed) : Cut offset (es ++ e :: fs) placed
  | closed {offset : Nat} {es fs : List Event} {e : Event} {placed : List (Span × Statement)}
      (whole : ∀ e ∈ es, e.isCut = false) (terminator : e.kind = .terminator)
      (more : Cut e.stop fs placed) :
      Cut offset (es ++ e :: fs)
        ((.ofTrimmed offset (Event.concat es), statementOf (Event.concat es) (some e.text)) ::
          placed)

variable {options : SplitOptions}

theorem close_eq (hterminators : options.keepTerminators = false) (cs : List Char) (hasCode : Bool)
    (terminator : Option (List Char)) :
    close options cs.reverse hasCode terminator =
      if hasCode || options.keepEmptyStatements then [statementOf cs terminator] else [] := by
  simp [close, hterminators, statementOf]

/-- Whether a statement has a space in the place of an event: a comment that is not kept. -/
def leavesOut (options : SplitOptions) (e : Event) : Bool :=
  match e.kind with
  | .comment _ => !options.keepComments
  | _ => false

theorem kept_eq {e : Event} (hcut : e.isCut = false) :
    kept options e = if leavesOut options e then [' '] else e.text := by
  obtain ⟨kind, start, text⟩ := e
  cases kind with
  | terminator | delimiterChange => cases hcut
  | comment style => cases hcomments : options.keepComments <;> simp [kept, leavesOut, hcomments]
  | code | literal | blockBegin | blockEnd => rfl

theorem kept_eq_text (hcomments : options.keepComments = true) {e : Event} (hcut : e.isCut = false) :
    kept options e = e.text := by
  have hkeeps : leavesOut options e = false := by
    unfold leavesOut
    split
    · rw [hcomments, Bool.not_true]
    · rfl
  rw [kept_eq hcut, hkeeps, if_neg Bool.false_ne_true]

theorem collect_cons_of_not_isCut {e : Event} (hcut : e.isCut = false) (pending : List Char)
    (hasCode : Bool) (es : List Event) :
    collect options pending hasCode (e :: es) =
      collect options ((kept options e).reverse ++ pending) (hasCode || e.isCode) es := by
  obtain ⟨kind, start, text⟩ := e
  cases kind with
  | terminator | delimiterChange => cases hcut
  | code | comment | literal | blockBegin | blockEnd => rfl

theorem flatMap_kept (hcomments : options.keepComments = true) {es : List Event}
    (hes : ∀ e ∈ es, e.isCut = false) : es.flatMap (kept options) = Event.concat es :=
  List.flatMap_congr fun e he => kept_eq_text hcomments (hes e he)

/-- Between cuts the texts that statements keep are put together. -/
theorem collect_append_of_not_isCut {es : List Event} (hes : ∀ e ∈ es, e.isCut = false)
    (pending : List Char) (hasCode : Bool) (fs : List Event) :
    collect options pending hasCode (es ++ fs) =
      collect options ((es.flatMap (kept options)).reverse ++ pending)
        (hasCode || es.any Event.isCode) fs := by
  induction es generalizing pending hasCode with
  | nil => rw [List.any_nil, Bool.or_false]; rfl
  | cons e es ih =>
      obtain ⟨hcut, hes⟩ := List.forall_mem_cons.mp hes
      rw [List.cons_append, collect_cons_of_not_isCut hcut, ih hes, List.flatMap_cons,
        List.reverse_append, List.append_assoc, List.any_cons, Bool.or_assoc]

theorem collect_congr {options' : SplitOptions}
    (hterminators : options'.keepTerminators = options.keepTerminators)
    (hcomments : options'.keepComments = options.keepComments)
    (hempty : options'.keepEmptyStatements = options.keepEmptyStatements) (pending : List Char)
    (hasCode : Bool) (es : List Event) :
    collect options' pending hasCode es = collect options pending hasCode es := by
  have hclose : close options' = close options := by
    funext pending hasCode terminator
    rw [close, close, hterminators, hempty]
  have hkept : kept options' = kept options := by
    funext e
    rw [kept, kept, hcomments]
  induction es generalizing pending hasCode with
  | nil => rw [collect, collect, hclose, hempty]
  | cons e es ih => simp only [collect, hclose, hkept, ih]

theorem collect_of_not_isCut (hcomments : options.keepComments = true) {e : Event}
    (hcut : e.isCut = false) (pending : List Event) (hasCode : Bool) (es : List Event) :
    collect options (Event.concat pending).reverse hasCode (e :: es) =
      collect options (Event.concat (pending ++ [e])).reverse (hasCode || e.isCode) es := by
  rw [collect_cons_of_not_isCut hcut, kept_eq_text hcomments hcut, Event.concat_append,
    List.reverse_append, Event.concat_cons, Event.concat_nil, List.append_nil]

/-- The statements that are collected from a walk are cut out of its events, after some events of
the current statement. -/
theorem exists_cut_of_walk (hcomments : options.keepComments = true)
    (hterminators : options.keepTerminators = false) {s t : Scanner} {es : List Event}
    (h : Walk s es t) (offset : Nat) {pending : List Event}
    (hwhole : ∀ e ∈ pending, e.isCut = false) (hcode : s.hasCode = pending.any Event.isCode) :
    ∃ placed, Cut offset (pending ++ es) placed ∧
      placed.map Prod.snd = collect options (Event.concat pending).reverse s.hasCode es := by
  have hplain : ∀ {es : List Event}, es.any Event.isCode = false → ∀ e ∈ es, e.isCode = false := by
    intro es hes e he
    simpa using List.any_eq_false.mp hes e he
  -- Along the walk the flag of the scanner keeps saying whether a pending event is code.
  induction h generalizing offset pending with
  | nil s =>
      rw [List.append_nil, collect, close_eq hterminators]
      cases hhas : s.hasCode with
      | true => exact ⟨_, .last hwhole, by simp⟩
      | false =>
          by_cases hkeep : (options.keepEmptyStatements &&
              !(Event.concat pending).reverse.all isBlank) = true
          · refine ⟨_, .last hwhole, ?_⟩
            rw [Bool.false_or, if_pos hkeep, Bool.false_or,
              if_pos (Bool.and_eq_true_iff.mp hkeep).1]
            rfl
          · refine ⟨_, .tail hwhole (hplain (hcode.symm.trans hhas)), ?_⟩
            rw [Bool.false_or, if_neg hkeep]
            rfl
  | @cons s s' t e es step walk ih =>
      have hnext := hasCode_of_step step
      cases hcut : e.isCut with
      | false =>
          rw [hcut, Bool.not_false, Bool.true_and] at hnext
          have hwhole' : ∀ f ∈ pending ++ [e], f.isCut = false := by
            intro f hf
            rcases List.mem_append.mp hf with hf | hf
            · exact hwhole f hf
            · exact List.mem_singleton.mp hf ▸ hcut
          obtain ⟨placed, hplaced, hstatements⟩ := ih offset hwhole' (by simp [hnext, hcode])
          rw [collect_of_not_isCut hcomments hcut, ← hnext]
          rw [List.append_assoc] at hplaced
          exact ⟨placed, hplaced, hstatements⟩
      | true =>
          rw [hcut, Bool.not_true, Bool.false_and] at hnext
          obtain ⟨placed, hplaced, hstatements⟩ :=
            ih e.stop (fun _ hmem => absurd hmem List.not_mem_nil) (by simp [hnext])
          rw [hnext] at hstatements
          cases hkind : e.kind with
          | code | comment | literal | blockBegin | blockEnd => simp [Event.isCut, hkind] at hcut
          | delimiterChange delimiter =>
              -- What is dropped here may be dropped, because the scanner saw no code in it either.
              have hhas := hasCode_of_directive step hkind
              refine ⟨placed, .dropped hwhole (hplain (hcode.symm.trans hhas)) hcut hplaced, ?_⟩
              rw [hstatements, collect, hkind]
              rfl
          | terminator =>
              rw [collect, hkind]
              dsimp only
              rw [close_eq hterminators]
              split
              · exact ⟨_, .closed hwhole hkind hplaced, congrArg _ hstatements⟩
              · rename_i hdrop
                rw [Bool.or_eq_true, not_or, Bool.not_eq_true] at hdrop
                exact ⟨placed, .dropped hwhole (hplain (hcode.symm.trans hdrop.1)) hcut hplaced,
                  hstatements⟩

/-! ### Ranges of statements -/

namespace Cut

variable {offset : Nat} {es : List Event} {placed : List (Span × Statement)}

theorem le_start (h : Cut offset es placed) (hes : Event.Contiguous offset es) :
    ∀ p ∈ placed, offset ≤ p.1.start ∧ p.1.start ≤ p.1.stop := by
  induction h with
  | tail whole plain => exact fun _ hmem => absurd hmem List.not_mem_nil
  | @last offset es whole =>
      have hbounds := Span.ofTrimmed_bounds offset (Event.concat es)
      exact List.forall_mem_singleton.mpr ⟨hbounds.1, hbounds.2.1⟩
  | dropped whole plain cut more ih =>
      obtain ⟨-, hstart, -, hfs⟩ := hes.append
      intro p hp
      have hp := ih hfs p hp
      rw [Event.stop, hstart] at hp
      exact ⟨by omega, hp.2⟩
  | @closed offset es fs e placed whole terminator more ih =>
      obtain ⟨-, hstart, -, hfs⟩ := hes.append
      have hbounds := Span.ofTrimmed_bounds offset (Event.concat es)
      refine List.forall_mem_cons.mpr ⟨⟨hbounds.1, hbounds.2.1⟩, fun p hp => ?_⟩
      have hp := ih hfs p hp
      rw [Event.stop, hstart] at hp
      exact ⟨by omega, hp.2⟩

theorem lt_start {e : Event} (h : Cut e.stop es placed) (hes : Event.Contiguous e.stop es)
    (htext : e.text ≠ []) : ∀ p ∈ placed, e.start < p.1.start ∧ e.start < p.1.stop := by
  intro p hp
  have hle := h.le_start hes p hp
  have hpos := byteLength_pos htext
  rw [Event.stop] at hle
  omega

theorem ordered (h : Cut offset es placed) (hes : Event.Contiguous offset es) :
    placed.Pairwise fun p q => p.1.stop < q.1.start := by
  induction h with
  | tail whole plain => exact .nil
  | last whole => exact List.pairwise_singleton _ _
  | dropped whole plain cut more ih =>
      obtain ⟨-, -, -, hfs⟩ := hes.append
      exact ih hfs
  | @closed offset es fs e placed whole terminator more ih =>
      obtain ⟨-, hstart, htext, hfs⟩ := hes.append
      refine .cons (fun p hp => ?_) (ih hfs)
      have hbounds := Span.ofTrimmed_bounds offset (Event.concat es)
      have hpast := more.lt_start hfs htext p hp
      dsimp only
      omega

theorem standsAt {script : List Char} (h : Cut offset es placed)
    (hes : Event.Contiguous offset es) (hscript : StandsAt script offset (Event.concat es)) :
    ∀ p ∈ placed, StandsAt script p.1.start p.2.text.toList ∧
      p.1.stop = p.1.start + byteLength p.2.text.toList := by
  have hstatement : ∀ {offset cs terminator}, StandsAt script offset cs →
      StandsAt script (Span.ofTrimmed offset cs).start (statementOf cs terminator).text.toList ∧
        (Span.ofTrimmed offset cs).stop = (Span.ofTrimmed offset cs).start +
          byteLength (statementOf cs terminator).text.toList := by
    intro offset cs terminator hcs
    rw [statementOf, String.toList_ofList]
    exact ⟨Span.standsAt_trim hcs, rfl⟩
  induction h with
  | tail whole plain => exact fun _ hmem => absurd hmem List.not_mem_nil
  | last whole => exact List.forall_mem_singleton.mpr (hstatement hscript)
  | dropped whole plain cut more ih =>
      obtain ⟨-, hstart, -, hfs⟩ := hes.append
      rw [Event.concat_append] at hscript
      have hmore := hscript.append.2.append.2
      rw [← hstart] at hmore
      exact ih hfs hmore
  | closed whole terminator more ih =>
      obtain ⟨-, hstart, -, hfs⟩ := hes.append
      rw [Event.concat_append] at hscript
      have hmore := hscript.append.2.append.2
      rw [← hstart] at hmore
      exact List.forall_mem_cons.mpr ⟨hstatement hscript.append.1, ih hfs hmore⟩

theorem code (h : Cut offset es placed) (hes : Event.Contiguous offset es)
    (hfirm : ∀ e ∈ es, e.isCode = true → Firm e.text) :
    ∀ e ∈ es, e.isCode = true → ∃ p ∈ placed, p.1.Contains e := by
  induction h with
  | tail whole plain =>
      intro e he hcode
      rw [plain e he] at hcode
      cases hcode
  | last whole =>
      intro e he hcode
      exact ⟨_, List.mem_singleton_self _, Span.ofTrimmed_contains hes he (hfirm e he hcode)⟩
  | dropped whole plain cut more ih =>
      obtain ⟨-, -, -, hfs⟩ := hes.append
      intro f hf hcode
      rcases List.mem_append.mp hf with hmem | hmem
      · rw [plain f hmem] at hcode
        cases hcode
      rcases List.mem_cons.mp hmem with rfl | hmem
      · rw [Event.not_isCode_of_isCut cut] at hcode
        cases hcode
      · exact ih hfs (fun g hg => hfirm g (by simp [hg])) f hmem hcode
  | closed whole terminator more ih =>
      obtain ⟨hes, -, -, hfs⟩ := hes.append
      intro f hf hcode
      rcases List.mem_append.mp hf with hmem | hmem
      · exact ⟨_, List.mem_cons_self, Span.ofTrimmed_contains hes hmem (hfirm f hf hcode)⟩
      rcases List.mem_cons.mp hmem with rfl | hmem
      · simp [Event.isCode, terminator] at hcode
      · obtain ⟨p, hp, hcontains⟩ := ih hfs (fun g hg => hfirm g (by simp [hg])) f hmem hcode
        exact ⟨p, List.mem_cons_of_mem _ hp, hcontains⟩

theorem cuts (h : Cut offset es placed) (hes : Event.Contiguous offset es) :
    ∀ e ∈ es, e.isCut = true → ∀ p ∈ placed, p.1.Misses e := by
  induction h with
  | tail whole plain | last whole =>
      intro e he hcut
      rw [whole e he] at hcut
      cases hcut
  | dropped whole plain cut more ih =>
      obtain ⟨-, -, -, hfs⟩ := hes.append
      intro f hf hcut p hp
      rcases List.mem_append.mp hf with hmem | hmem
      · rw [whole f hmem] at hcut
        cases hcut
      rcases List.mem_cons.mp hmem with rfl | hmem
      · exact .inl (more.le_start hfs p hp).1
      · exact ih hfs f hmem hcut p hp
  | @closed offset es fs e placed whole terminator more ih =>
      obtain ⟨-, hstart, -, hfs⟩ := hes.append
      have hbounds := Span.ofTrimmed_bounds offset (Event.concat es)
      intro f hf hcut p hp
      rcases List.mem_append.mp hf with hmem | hmem
      · rw [whole f hmem] at hcut
        cases hcut
      rcases List.mem_cons.mp hp with rfl | hplaced
      · have hf := (hes.append.2.bounds f hmem).1
        exact .inr (Nat.le_trans hbounds.2.2 hf)
      rcases List.mem_cons.mp hmem with rfl | hmem
      · exact .inl (more.le_start hfs p hplaced).1
      · exact ih hfs f hmem hcut p hplaced

theorem find?_terminator_eq_none {es : List Event} (whole : ∀ e ∈ es, e.isCut = false) (n : Nat) :
    (es.find? fun e => e.kind = .terminator && n ≤ e.start) = none := by
  rw [List.find?_eq_none]
  intro e he hkind
  simp only [Bool.and_eq_true, decide_eq_true_eq] at hkind
  have hcut := whole e he
  simp [Event.isCut, hkind.1] at hcut

theorem find?_terminator_append {es fs : List Event} {e : Event} {n : Nat}
    (whole : ∀ e ∈ es, e.isCut = false) (hn : e.start < n) :
    ((es ++ e :: fs).find? fun e => e.kind = .terminator && n ≤ e.start) =
      fs.find? fun e => e.kind = .terminator && n ≤ e.start := by
  have hpast : ¬n ≤ e.start := Nat.not_le.mpr hn
  rw [List.find?_append, find?_terminator_eq_none whole, Option.none_or,
    List.find?_cons_of_neg (by simp [hpast])]

theorem terminator_eq (h : Cut offset es placed) (hes : Event.Contiguous offset es) :
    ∀ p ∈ placed, p.2.terminator =
      (es.find? fun e => e.kind = .terminator && p.1.stop ≤ e.start).map
        fun e => String.ofList e.text := by
  induction h with
  | tail whole plain => exact fun _ hmem => absurd hmem List.not_mem_nil
  | last whole =>
      refine List.forall_mem_singleton.mpr ?_
      rw [find?_terminator_eq_none whole]
      rfl
  | dropped whole plain cut more ih =>
      obtain ⟨-, -, htext, hfs⟩ := hes.append
      intro p hp
      rw [find?_terminator_append whole (more.lt_start hfs htext p hp).2]
      exact ih hfs p hp
  | @closed offset es fs e placed whole terminator more ih =>
      obtain ⟨-, hstart, htext, hfs⟩ := hes.append
      intro p hp
      rcases List.mem_cons.mp hp with rfl | hplaced
      · have hbounds := Span.ofTrimmed_bounds offset (Event.concat es)
        rw [List.find?_append, find?_terminator_eq_none whole, Option.none_or,
          List.find?_cons_of_pos]
        · rfl
        · simp only [terminator, decide_true, Bool.true_and, decide_eq_true_eq]
          omega
      · rw [find?_terminator_append whole (more.lt_start hfs htext p hplaced).2]
        exact ih hfs p hplaced

theorem ended (h : Cut offset es placed) :
    ∀ p ∈ placed.dropLast, p.2.terminator ≠ none := by
  induction h with
  | tail whole plain | last whole => exact fun _ hmem => absurd hmem List.not_mem_nil
  | dropped whole plain cut more ih => exact ih
  | @closed offset es fs e placed whole terminator more ih =>
      cases placed with
      | nil => exact fun _ hmem => absurd hmem List.not_mem_nil
      | cons q placed =>
          refine List.forall_mem_cons.mpr ⟨?_, ih⟩
          simp [statementOf]

end Cut

/-! ### The statements of a script -/

/-- Statements that stand in a script, each in its range: the ranges follow each other, each event
with code is in just one of them, no terminator and no directive is in any, and each statement has
the terminator that comes next after it, which only the last one can lack. -/
structure Placement (script : List Char) (events : List Event)
    (placed : List (Span × Statement)) : Prop where
  ordered : placed.Pairwise fun p q => p.1.stop < q.1.start
  text : ∀ p ∈ placed, StandsAt script p.1.start p.2.text.toList ∧
    p.1.stop = p.1.start + byteLength p.2.text.toList
  code : ∀ e ∈ events, e.isCode = true →
    ∃ p ∈ placed, p.1.Contains e ∧ ∀ q ∈ placed, q.1.Contains e → q = p
  cuts : ∀ e ∈ events, e.isCut = true → ∀ p ∈ placed, p.1.Misses e
  terminator : ∀ p ∈ placed, p.2.terminator =
    (events.find? fun e => e.kind = .terminator && p.1.stop ≤ e.start).map
      fun e => String.ofList e.text
  ended : ∀ p ∈ placed.dropLast, p.2.terminator ≠ none

private theorem eq_of_contains {placed : List (Span × Statement)}
    (hordered : placed.Pairwise fun p q => p.1.stop < q.1.start) {e : Event}
    (he : e.start < e.stop) {p q : Span × Statement} (hp : p ∈ placed) (hq : q ∈ placed)
    (hpe : p.1.Contains e) (hqe : q.1.Contains e) : q = p := by
  obtain ⟨hpstart, hpstop⟩ := hpe
  obtain ⟨hqstart, hqstop⟩ := hqe
  induction hordered with
  | nil => cases hp
  | cons hfirst hrest ih =>
      rcases List.mem_cons.mp hp with rfl | hpmem <;> rcases List.mem_cons.mp hq with rfl | hqmem
      · rfl
      · have := hfirst q hqmem
        omega
      · have := hfirst p hpmem
        omega
      · exact ih hpmem hqmem

theorem splitStatements_eq_ok {script : String} {statements : List Statement}
    (h : splitStatements options script = .ok statements) :
    options.Valid ∧ statements = collect options [] false (scan options script.toList).events := by
  obtain ⟨⟨⟩, hvalid, hscan⟩ := exists_of_bind_eq_ok h
  refine ⟨SplitOptions.validate_eq_ok_iff.mp hvalid, ?_⟩
  dsimp only at hscan
  split at hscan
  · cases hscan
  · exact (Except.ok.inj hscan).symm

theorem splitStatements_eq (hvalid : options.Valid) (script : String) :
    splitStatements options script =
      match (scan options script.toList).error? script.toList with
      | some e => .error e
      | none => .ok (collect options [] false (scan options script.toList).events) := by
  rw [splitStatements, SplitOptions.validate_eq_ok_iff.mpr hvalid]
  rfl

theorem ending_of_splitStatements {script : String} {statements : List Statement}
    (h : splitStatements options script = .ok statements) :
    (scan options script.toList).ending = .complete := by
  have hvalid := (splitStatements_eq_ok h).1
  have hstops := scan_stops (SplitOptions.terminator_ne_empty hvalid.1) script.toList
  rw [splitStatements_eq hvalid, Scan.error?] at h
  cases hending : (scan options script.toList).ending with
  | complete => rfl
  | unbalanced construct offset =>
      rw [hending] at h
      cases h
  | capped =>
      rw [hending] at hstops
      cases hstep : (scan options script.toList).final.step <;> simp [hstep, Step.ending?] at hstops

/-- Splitting a script loses no code, doubles none and keeps it in order. -/
theorem splitStatements_places (hcomments : options.keepComments = true)
    (hterminators : options.keepTerminators = false) {script : String} {statements : List Statement}
    (h : splitStatements options script = .ok statements) :
    (∃ placed, placed.map Prod.snd = statements ∧
      Placement script.toList (scan options script.toList).events placed) ∧
    ∀ before dropped e after delimiter,
      (scan options script.toList).events = before ++ dropped ++ e :: after →
      e.kind = .delimiterChange delimiter → (∀ f ∈ dropped, f.isCut = false) →
      ∀ f ∈ dropped, f.isCode = false := by
  obtain ⟨hvalid, rfl⟩ := splitStatements_eq_ok h
  refine ⟨?_, fun before dropped e after delimiter hevents hkind hwhole =>
    not_isCode_of_scan_eq hevents hkind hwhole⟩
  have hwalk := scan_walk options script.toList
  have hcontiguous : Event.Contiguous 0 (scan options script.toList).events :=
    hwalk.contiguous (SplitOptions.ne_nil_of_isTerminator hvalid.1)
  have hscript : StandsAt script.toList 0 (Event.concat (scan options script.toList).events) :=
    ⟨[], _, hwalk.script_eq, rfl⟩
  obtain ⟨placed, hcut, hstatements⟩ := exists_cut_of_walk hcomments hterminators hwalk 0
    (fun _ hmem => absurd hmem List.not_mem_nil) rfl
  have hordered := hcut.ordered hcontiguous
  refine ⟨placed, hstatements, hordered, hcut.standsAt hcontiguous hscript, ?_,
    hcut.cuts hcontiguous, hcut.terminator_eq hcontiguous, hcut.ended⟩
  intro e he hcode
  obtain ⟨p, hp, hcontains⟩ := hcut.code hcontiguous hwalk.firm e he hcode
  have hbounds := hcontiguous.bounds e he
  exact ⟨p, hp, hcontains, fun q hq hqe =>
    eq_of_contains hordered hbounds.2.1 hp hq hcontains hqe⟩

/-- A directive drops the comment before it. What is before the comment and what is after the
directive are statements. -/
theorem splitStatements_places_around_directive :
    ({} : SplitOptions).keepComments = true ∧ ({} : SplitOptions).keepTerminators = false ∧
    splitStatements {} "a;--c\nDELIMITER GO\nb" =
      .ok [{ text := "a", terminator := some ";" }, { text := "b" }] ∧
    ∃ placed, placed.map Prod.snd = [{ text := "a", terminator := some ";" }, { text := "b" }] ∧
      Placement "a;--c\nDELIMITER GO\nb".toList
        (scan {} "a;--c\nDELIMITER GO\nb".toList).events placed := by
  have hsplit : splitStatements {} "a;--c\nDELIMITER GO\nb" =
      .ok [{ text := "a", terminator := some ";" }, { text := "b" }] := rfl
  exact ⟨rfl, rfl, hsplit, (splitStatements_places rfl rfl hsplit).1⟩

end Script

end SqlBatch
