import SqlBatch.Proofs.Placeholder.Masked

/-!
# Scans of a single statement

To find the placeholders of a statement its text is scanned by itself, with the terminator that
scripts begin with. As long as no literal and no comment opens within that terminator where it stands
in the text, what the scan blanks out are the literals and comments that the text tells by itself: no
other terminator is in effect, no directive is taken, and an open block is no error.
-/

namespace SqlBatch

open Text Scanner Lexeme

namespace Scanner

theorem previous_advance (s : Scanner) (e : Event) :
    (s.advance e).previous = lastOf s.previous e.text := by
  rw [previous, advance, List.head?_append, List.head?_reverse]
  rfl

end Scanner

namespace Placeholders

theorem maskEvent_eq (e : Event) : maskEvent e =
    if e.kind.hides then List.replicate (byteLength e.text) ' ' else e.text := by
  obtain ⟨kind, start, text⟩ := e
  cases kind <;> rfl

variable {options : SplitOptions}

/-! ### Terminators within a text -/

/-- Whether neither a literal nor a comment opens within a text, given the character before it and
the text behind it. -/
def nothingOpens (options : SplitOptions) : List Char → Option Char → List Char → Bool
  | [], _, _ => true
  | c :: text, previous, after =>
    (hidden? options options.terminator.toList previous c (text ++ after)).isNone &&
      nothingOpens options text (some c) after

/-- Wherever the terminator that scripts begin with could end a statement within a text, nothing
opens in it. -/
def Inert (options : SplitOptions) (sql : List Char) : Prop :=
  ∀ pre post, sql = pre ++ (options.terminator.toList ++ post) →
    options.Visible pre options.terminator.toList post →
    nothingOpens options options.terminator.toList pre.getLast? post = true

instance (options : SplitOptions) (pre terminator post : List Char) :
    Decidable (options.Visible pre terminator post) := by
  unfold SplitOptions.Visible StandsApart
  infer_instance

instance (options : SplitOptions) (sql : List Char) : Decidable (Inert options sql) :=
  decidable_of_iff (∀ n ≤ sql.length, ∀ post ∈ after? options.terminator.toList (sql.drop n),
      options.Visible (sql.take n) options.terminator.toList post →
      nothingOpens options options.terminator.toList (sql.take n).getLast? post = true) <| by
    constructor
    · rintro h pre post rfl
      have hn : pre.length ≤ (pre ++ (options.terminator.toList ++ post)).length := by simp
      have hpost := h pre.length hn post
      rw [List.drop_left, List.take_left] at hpost
      exact hpost (after?_eq_some_iff.mpr rfl)
    · intro h n _ post hpost
      refine h (sql.take n) post ?_
      rw [← after?_eq_some_iff.mp hpost, List.take_append_drop]

private theorem Masked.exists_of_nothingOpens {previous : Option Char}
    {text after masked : List Char} (h : Masked options previous (text ++ after) masked)
    (htext : nothingOpens options text previous after = true) :
    ∃ masked', masked = text ++ masked' ∧ Masked options (lastOf previous text) after masked' := by
  induction text generalizing previous masked with
  | nil => exact ⟨masked, rfl, h⟩
  | cons c text ih =>
      rw [nothingOpens, Bool.and_eq_true, Option.isNone_iff_eq_none] at htext
      obtain ⟨hfirst, hrest⟩ := htext
      have hcons : Masked options previous (c :: ([] ++ (text ++ after))) masked := h
      obtain ⟨masked₁, rfl, hmasked⟩ := hcons.exists_of_shown hfirst
        fun _ hmem => absurd hmem List.not_mem_nil
      obtain ⟨masked', rfl, hmore⟩ := ih hmasked hrest
      rw [lastOf_cons]
      exact ⟨masked', rfl, hmore⟩

/-- Whether a terminator opens neither a literal nor a comment, by itself or with what comes behind
it, and no literal or comment opens within it. -/
def opensNothing (terminator : List Char) : Bool :=
  !terminator.head?.any (['\'', '"', '\x60', '$'].contains ·) &&
    !(['/', '*'].isPrefixOf terminator) && terminator.tail.all (!isOpener ·)

private theorem nothingOpens_of_not_isOpener {text : List Char}
    (htext : ∀ c ∈ text, isOpener c = false) (previous : Option Char) (after : List Char) :
    nothingOpens options text previous after = true := by
  induction text generalizing previous with
  | nil => rfl
  | cons c text ih =>
      rw [List.forall_mem_cons] at htext
      rw [nothingOpens, hidden?_eq_none_of_not_isOpener htext.1, ih htext.2]
      rfl

theorem inert_of_opensNothing (h : opensNothing options.terminator.toList = true)
    (sql : List Char) : Inert options sql := by
  rintro pre post - ⟨-, hopeners⟩
  cases hterminator : options.terminator.toList with
  | nil => rfl
  | cons c text =>
  rw [hterminator] at hopeners h
  simp only [opensNothing, List.head?_cons, Option.any_some, List.tail_cons, Bool.and_eq_true,
    Bool.not_eq_true', List.contains_eq_mem, List.mem_cons, List.not_mem_nil, or_false,
    decide_eq_false_iff_not, not_or] at h
  obtain ⟨⟨⟨hsingle, hdouble, hbacktick, hdollar⟩, hblock⟩, htail⟩ := h
  have hnot : ∀ d ∈ text, isOpener d = false := by
    simpa only [List.all_eq_true, Bool.not_eq_true'] using htail
  -- A comment opener is longer than a terminator of one character.
  have hlong {d : Char} (hc : c.utf8Size = 1) (hopener : [c, d] ∈ options.commentOpeners)
      (hd : (text ++ post).head? = some d) : text.head? = some d := by
    cases text with
    | cons e text => exact hd
    | nil =>
        obtain ⟨rest, hafter⟩ := List.head?_eq_some_iff.mp hd
        rw [List.nil_append] at hafter
        have hle := hopeners [c, d] hopener ⟨rest, by rw [hafter]; rfl⟩
        have hpos := d.utf8Size_pos
        simp only [byteLength, hc] at hle
        omega
  rw [nothingOpens, nothingOpens_of_not_isOpener hnot, Bool.and_true, Option.isNone_iff_eq_none]
  unfold hidden?
  split
  · rename_i hline
    simp only [Bool.and_eq_true, decide_eq_true_eq] at hline
    obtain ⟨⟨rfl, hhead⟩, henabled⟩ := hline
    have hmem := List.mem_of_mem_head?
      (hlong rfl (SplitOptions.mem_commentOpeners.mpr (.inl ⟨henabled, rfl⟩)) hhead)
    exact absurd (hnot '-' hmem) (by decide)
  split
  · rename_i hcomment
    simp only [Bool.and_eq_true, decide_eq_true_eq] at hcomment
    obtain ⟨⟨rfl, hhead⟩, henabled⟩ := hcomment
    obtain ⟨rest, rfl⟩ := List.head?_eq_some_iff.mp
      (hlong rfl (SplitOptions.mem_commentOpeners.mpr (.inr ⟨henabled, rfl⟩)) hhead)
    cases hblock
  · rw [if_neg (by simp [hbacktick]), if_neg (by simp [hdollar])]

/-! ### The scan -/

/-- A scanner of a single statement, which keeps the terminator that it begins with. -/
structure Single (options : SplitOptions) (sql : List Char) (s : Scanner) : Prop where
  options_eq : s.options = scanOptions options
  terminator_eq : s.terminator = options.terminator.toList
  text_eq : s.before.reverse ++ s.rest = sql

namespace Single

variable {sql : List Char} {s : Scanner}

theorem lexeme_eq (hs : Single options sql s) (c : Char) (cs : List Char) :
    s.lexeme c cs = if s.atTerminator then .ok (.terminator, options.terminator.toList.length)
      else (hidden? options options.terminator.toList s.previous c cs).getD
        (.ok (s.visibleLexeme c cs)) := by
  rw [Scanner.lexeme_eq, hs.options_eq, hs.terminator_eq]
  rfl

private theorem lexeme_ne_error (hs : Single options sql s) {c : Char} {cs masked : List Char}
    (h : Masked options s.previous (c :: cs) masked) (construct : Construct) :
    s.lexeme c cs ≠ .error construct := by
  intro hlexeme
  rw [hs.lexeme_eq] at hlexeme
  split at hlexeme
  · cases hlexeme
  cases hhidden : hidden? options options.terminator.toList s.previous c cs with
  | none =>
      rw [hhidden] at hlexeme
      cases hlexeme
  | some found =>
      rw [hhidden, Option.getD_some] at hlexeme
      rw [hlexeme] at hhidden
      exact h.not_error hhidden

theorem kind_ne_delimiterChange (hs : Single options sql s) {c : Char} {cs : List Char}
    {kind : EventKind} {n : Nat} (hlexeme : s.lexeme c cs = .ok (kind, n))
    (delimiter : List Char) : kind ≠ .delimiterChange delimiter := by
  rintro rfl
  obtain ⟨m, hnamed⟩ := (lexed_of_lexeme hlexeme).named_of_delimiterChange
  rw [Scanner.directive?, hs.options_eq] at hnamed
  cases hnamed

private theorem nothingOpens_of_atTerminator (hs : Single options sql s)
    (hinert : Inert options sql) (here : s.atTerminator = true) {post : List Char}
    (hrest : s.rest = options.terminator.toList ++ post) :
    nothingOpens options options.terminator.toList s.previous post = true := by
  obtain ⟨-, post', hpost, hvisible⟩ := atTerminator_iff.mp here
  rw [hs.terminator_eq] at hpost hvisible
  obtain rfl : post' = post := List.append_cancel_left (hpost.symm.trans hrest)
  rw [hs.options_eq] at hvisible
  have htext := hs.text_eq
  rw [hpost] at htext
  have hnothing := hinert s.before.reverse post' htext.symm hvisible
  rwa [List.getLast?_reverse] at hnothing

theorem exists_of_lexeme (hs : Single options sql s) (hinert : Inert options sql) {c : Char}
    {text after masked : List Char} (hrest : s.rest = c :: (text ++ after)) {kind : EventKind}
    (hlexeme : s.lexeme c (text ++ after) = .ok (kind, text.length + 1))
    (h : Masked options s.previous (c :: (text ++ after)) masked) :
    ∃ masked', masked = maskEvent ⟨kind, s.offset, c :: text⟩ ++ masked' ∧
      Masked options (lastOf s.previous (c :: text)) after masked' := by
  have hdirective := hs.kind_ne_delimiterChange hlexeme
  rw [maskEvent_eq]
  rw [hs.lexeme_eq] at hlexeme
  split at hlexeme
  · rename_i here
    rw [Except.ok.injEq, Prod.mk.injEq] at hlexeme
    obtain ⟨rfl, hlength⟩ := hlexeme
    obtain ⟨-, post, hpost⟩ := rest_of_atTerminator here
    rw [hs.terminator_eq, hrest, ← List.cons_append] at hpost
    have hterminator : options.terminator.toList = c :: text :=
      (List.append_inj hpost.symm hlength).1
    refine Masked.exists_of_nothingOpens h ?_
    have hfront : s.rest = options.terminator.toList ++ after := by
      rw [hterminator, hrest, List.cons_append]
    have hnothing := hs.nothingOpens_of_atTerminator hinert here hfront
    rwa [hterminator] at hnothing
  cases hhidden : hidden? options options.terminator.toList s.previous c (text ++ after) with
  | none =>
      rw [hhidden, Option.getD_none, Except.ok.injEq] at hlexeme
      obtain ⟨hshows, htext⟩ := visibleLexeme_shows hrest (by rwa [hlexeme])
      rw [hlexeme] at hshows htext
      rw [Nat.add_sub_cancel, List.take_left] at htext
      rw [EventKind.not_hides_of_shows hshows]
      exact h.exists_of_shown hhidden htext
  | some found =>
      rw [hhidden, Option.getD_some] at hlexeme
      rw [hlexeme] at hhidden
      rw [if_pos (bounded_of_hidden? hhidden).hides]
      exact h.exists_of_hidden hhidden

theorem exists_step (hs : Single options sql s) (hinert : Inert options sql)
    (hne : s.terminator ≠ []) {masked : List Char} (h : Masked options s.previous s.rest masked)
    (hmore : s.rest ≠ []) :
    ∃ e t masked', s.step = .event e t ∧ masked = maskEvent e ++ masked' ∧
      Masked options t.previous t.rest masked' ∧ Single options sql t := by
  obtain ⟨c, cs, hrest⟩ := List.exists_cons_of_ne_nil hmore
  rw [hrest] at h
  cases hlexeme : s.lexeme c cs with
  | error construct => exact absurd hlexeme (hs.lexeme_ne_error h construct)
  | ok found =>
      obtain ⟨kind, n⟩ := found
      obtain ⟨text, after, rfl, rfl⟩ := exists_append_of_lexeme hne hrest hlexeme
      have hstep := step_of_lexeme_append hrest hlexeme
      obtain ⟨masked', hmasked, hnext⟩ := hs.exists_of_lexeme hinert hrest hlexeme h
      have hterminator : (s.advance ⟨kind, s.offset, c :: text⟩).terminator = s.terminator := by
        have hdirective := hs.kind_ne_delimiterChange hlexeme
        cases kind with
        | delimiterChange delimiter => exact absurd rfl (hdirective delimiter)
        | _ => rfl
      refine ⟨_, _, masked', hstep, hmasked, ?_, hs.options_eq,
        hterminator.trans hs.terminator_eq, ?_⟩
      · rw [previous_advance, advance, hrest, ← List.cons_append, List.drop_left]
        exact hnext
      · have htext := hs.text_eq
        rw [hrest, ← List.cons_append] at htext
        rw [advance, hrest, ← List.cons_append, List.drop_left, List.reverse_append,
          List.reverse_reverse, List.append_assoc, htext]

theorem exists_walk (hs : Single options sql s) (hinert : Inert options sql)
    (hne : options.terminator.toList ≠ []) {masked : List Char}
    (h : Masked options s.previous s.rest masked) :
    ∃ es t, Walk s es t ∧ t.step = .complete ∧ masked = es.flatMap maskEvent := by
  have hterminator := hs.terminator_eq ▸ hne
  generalize hn : s.rest.length = n
  induction n using Nat.strong_induction_on generalizing s masked with
  | _ n ih =>
      by_cases hmore : s.rest = []
      · rw [hmore] at h
        cases h
        refine ⟨[], s, .nil s, ?_, rfl⟩
        -- That a block is left open is no error here.
        have hlenient : s.options.strict = false := by rw [hs.options_eq, scanOptions]
        rw [Scanner.step, hmore]
        dsimp only
        split
        · rw [if_neg (by simp [hlenient])]
        · rfl
      · obtain ⟨e, t, masked', hstep, rfl, hrest, ht⟩ :=
          hs.exists_step hinert hterminator h hmore
        have htext := text_ne_nil_of_step hterminator hstep
        have hshorter : t.rest.length < n := by
          have hlength := congrArg List.length (rest_of_step hstep)
          have hpos := List.length_pos_iff.mpr htext
          rw [List.length_append] at hlength
          omega
        obtain ⟨es, u, hwalk, hcomplete, rfl⟩ :=
          ih _ hshorter ht hrest (ht.terminator_eq ▸ hne) rfl
        exact ⟨e :: es, u, .cons hstep hwalk, hcomplete, rfl⟩

end Single

/-- Where a text tells its literals and comments by itself, they are what is blanked out. -/
theorem mask_eq_ok {sql masked : List Char}
    (hvalid : SplitOptions.isTerminator options.terminator.toList = true)
    (hinert : Inert options sql) (h : Masked options none sql masked) :
    mask options sql = .ok masked := by
  have hs : Single options sql (start (scanOptions options) sql) := ⟨rfl, rfl, rfl⟩
  obtain ⟨es, t, hwalk, hcomplete, rfl⟩ :=
    hs.exists_walk hinert (SplitOptions.ne_nil_of_isTerminator hvalid) h
  have hne : (scanOptions options).terminator ≠ "" :=
    SplitOptions.terminator_ne_empty hvalid
  have hscan : scan (scanOptions options) sql = ⟨es, .complete, t⟩ :=
    scan_eq_of_walk hne hwalk (by rw [hcomplete]; rfl)
  rw [mask, hscan]
  rfl

end Placeholders

end SqlBatch
