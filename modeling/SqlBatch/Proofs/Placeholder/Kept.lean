import SqlBatch.Proofs.Placeholder.Single

/-!
# What statements keep of a script

The text of a statement is what it keeps of the events between two cuts. Apart from comments that
are left out it is the text of the script, so the same literals and comments can be told in it that
the scan of the whole script found. Two things have to be so. Where the terminator in effect is not
the one that scripts begin with, neither stands within the statement as a marker of a dollar string;
and no word goes on where the statement begins.
-/

namespace SqlBatch

open Text Scanner Lexeme

namespace Script

variable {options : SplitOptions}

theorem comment_of_leavesOut {e : Event} (h : leavesOut options e = true) :
    ∃ style, e.kind = .comment style := by
  obtain ⟨kind, start, text⟩ := e
  cases kind with
  | comment style => exact ⟨style, rfl⟩
  | _ => cases h

theorem not_leavesOut_of_shows {e : Event} (h : e.kind.shows = true) :
    leavesOut options e = false := by
  rw [← Bool.not_eq_true]
  intro hout
  obtain ⟨style, hkind⟩ := comment_of_leavesOut hout
  rw [hkind] at h
  cases h

/-- What a statement keeps of an event, with literals and comments blanked out. -/
def keptMask (options : SplitOptions) (e : Event) : List Char :=
  if leavesOut options e then [' '] else Placeholders.maskEvent e

theorem respaced_keptMask {es : List Event} (hes : ∀ e ∈ es, e.text ≠ []) :
    Placeholders.Respaced (es.flatMap (keptMask options)) (es.flatMap Placeholders.maskEvent) := by
  induction es with
  | nil => exact .refl []
  | cons e es ih =>
      obtain ⟨he, hes⟩ := List.forall_mem_cons.mp hes
      refine .append ?_ (ih hes)
      rw [keptMask]
      split
      · rename_i hout
        obtain ⟨style, hkind⟩ := comment_of_leavesOut hout
        have hmask : Placeholders.maskEvent e = List.replicate (byteLength e.text) ' ' := by
          rw [Placeholders.maskEvent_eq, hkind]
          rfl
        have hpos := byteLength_pos he
        rw [hmask]
        refine .of_isMute rfl (Placeholders.Masked.replicate_isMute _) (List.cons_ne_nil _ _) ?_
        rw [Ne, List.replicate_eq_nil_iff]
        omega
      · exact .refl _

/-- What is asked of a text under a terminator, for the same dollar strings to open in it under the
terminator that scripts begin with: it begins with neither of them as a marker, unless they are the
same. -/
def UnmarkedAt (options : SplitOptions) (terminator text : List Char) : Prop :=
  options.dollarQuotes = true → terminator ≠ options.terminator.toList →
    ∀ marker ∈ [terminator, options.terminator.toList], marker.head? = some '$' →
      ¬ marker <+: text

instance (options : SplitOptions) (terminator text : List Char) :
    Decidable (UnmarkedAt options terminator text) := by
  unfold UnmarkedAt
  infer_instance

/-- The same asked of events, each of them looked at with what comes behind it. -/
def Unmarked (options : SplitOptions) (terminator : List Char) (es : List Event)
    (after : List Char) : Prop :=
  ∀ fs, fs <:+ es → fs ≠ [] → UnmarkedAt options terminator (Event.concat fs ++ after)

theorem Unmarked.nil (terminator after : List Char) : Unmarked options terminator [] after :=
  fun _ hfs hne => absurd (List.suffix_nil.mp hfs) hne

theorem Unmarked.tail {terminator after : List Char} {e : Event} {es : List Event}
    (h : Unmarked options terminator (e :: es) after) : Unmarked options terminator es after :=
  fun fs hfs => h fs (hfs.trans (List.suffix_cons e es))

theorem Unmarked.concat {terminator after : List Char} {e : Event} {es : List Event}
    (h : Unmarked options terminator es (e.text ++ after))
    (he : UnmarkedAt options terminator (e.text ++ after)) :
    Unmarked options terminator (es ++ [e]) after := by
  intro fs hfs hne
  obtain rfl | ⟨gs, rfl, hgs⟩ := List.suffix_concat_iff.mp hfs
  · exact absurd rfl hne
  rw [Event.concat_append, Event.concat_cons, Event.concat_nil, List.append_nil, List.append_assoc]
  by_cases hnil : gs = []
  · rw [hnil]
    exact he
  · exact h gs hgs hnil

theorem UnmarkedAt.hidden?_eq {terminator : List Char} {c : Char} {cs : List Char}
    (h : UnmarkedAt options terminator (c :: cs)) (previous : Option Char) :
    hidden? options terminator previous c cs =
      hidden? options options.terminator.toList previous c cs := by
  by_cases hsame : terminator = options.terminator.toList
  · rw [hsame]
  · exact hidden?_congr_terminator (fun hon => h hon hsame _ List.mem_cons_self)
      fun hon => h hon hsame _ (List.mem_cons_of_mem _ List.mem_cons_self)

/-! ### The text of a statement -/

/-- The text of a statement agrees with the script, up to the end of the statement or the first
comment that is left out. -/
theorem agrees_kept {s t : Scanner} {es : List Event} (h : Walk s es t)
    (hwhole : ∀ e ∈ es, e.isCut = false) : Agrees (es.flatMap (kept options)) s.rest := by
  induction h with
  | nil s => exact .of_isPrefix List.nil_prefix
  | cons step walk ih =>
      obtain ⟨hcut, hwhole⟩ := List.forall_mem_cons.mp hwhole
      rw [List.flatMap_cons, kept_eq hcut, rest_of_step step]
      split
      · exact ⟨[], _, _, rfl, rfl, rfl⟩
      · exact (ih hwhole).append _

theorem line_kept (options : SplitOptions) {s t : Scanner} {es : List Event} (h : Walk s es t)
    (hterminator : s.terminator ≠ [])
    (hwhole : ∀ e ∈ es, e.isCut = false) (hline : s.rest = [] ∨ s.rest.head? = some '\n') :
    es.flatMap (kept options) = [] ∨ (es.flatMap (kept options)).head? = some '\n' := by
  cases h with
  | nil s => exact .inl rfl
  | @cons s u t e es step walk =>
      obtain ⟨hcut, hwhole⟩ := List.forall_mem_cons.mp hwhole
      obtain ⟨c, text, htext, hshown⟩ := shows_or_hides_of_step hterminator step hcut
      have hrest := rest_of_step step
      rw [htext] at hrest
      rcases hline with hnil | hhead
      · rw [hnil] at hrest
        cases hrest
      rw [hrest] at hhead
      obtain rfl : c = '\n' := Option.some.inj hhead
      have hkeeps : leavesOut options e = false := by
        rw [hidden?_eq_none_of_not_isOpener (by decide)] at hshown
        rcases hshown with ⟨hshows, -⟩ | ⟨-, hhidden⟩
        · exact not_leavesOut_of_shows hshows
        · cases hhidden
      refine .inr ?_
      rw [List.flatMap_cons, kept_eq hcut, hkeeps, htext]
      rfl

private theorem not_isWord_of_leavesOut {terminator : List Char} {previous : Option Char}
    {e : Event} {c : Char} {text after : List Char}
    (hhidden : hidden? options terminator previous c (text ++ after) =
      some (.ok (e.kind, text.length + 1)))
    (hout : leavesOut options e = true) (hdollar : after.head? = some '$') :
    (c :: text).getLast?.any isWord = false := by
  obtain ⟨style, hkind⟩ := comment_of_leavesOut hout
  have hblock : e.kind ≠ .comment .line := by
    intro hline
    have hover := (bounded_of_hidden? hhidden).line hline
    rw [Nat.add_sub_cancel, List.drop_left, hdollar] at hover
    rcases hover with hnil | hfeed
    · rw [hnil] at hdollar
      cases hdollar
    · cases hfeed
  obtain ⟨body, d, hlast, hd, -⟩ := exists_closer_of_hidden? hhidden hblock
  rw [hlast, List.getLast?_concat]
  exact hd

/-- The text of a statement tells by itself the literals and comments that the scan found. -/
theorem masked_kept {s t : Scanner} {es : List Event} (h : Walk s es t)
    (hoptions : s.options = options) (hvalid : SplitOptions.isTerminator s.terminator = true)
    (hunmarked : Unmarked options s.terminator es t.rest)
    (hwhole : ∀ e ∈ es, e.isCut = false) {previous : Option Char}
    (hword : options.dollarQuotes = true → s.rest.head? = some '$' →
      s.previous.any isWord = previous.any isWord) :
    Placeholders.Masked options previous (es.flatMap (kept options))
      (es.flatMap (keptMask options)) := by
  induction h generalizing previous with
  | nil s => exact .nil previous
  | @cons s u t e es step walk ih =>
      obtain ⟨hcut, hwhole⟩ := List.forall_mem_cons.mp hwhole
      have hne := SplitOptions.ne_nil_of_isTerminator hvalid
      obtain ⟨c, text, htext, hshown⟩ := shows_or_hides_of_step hne step hcut
      have hrest := rest_of_step step
      rw [htext] at hrest
      have hadvance := advance_of_step step
      have hterminator : u.terminator = s.terminator := terminator_eq_of_not_isCut step hcut
      have hsame : hidden? s.options s.terminator s.previous c (text ++ u.rest) =
          hidden? options options.terminator.toList previous c (text ++ u.rest) := by
        have hhere := hunmarked (e :: es) List.suffix_rfl (List.cons_ne_nil _ _)
        rw [← (Walk.cons step walk).rest_eq, hrest, List.cons_append] at hhere
        rw [hoptions, hhere.hidden?_eq]
        exact hidden?_congr_previous fun hon hc => hword hon (by rw [hrest, hc]; rfl)
      have hprevious : u.previous = lastOf previous (c :: text) := by
        rw [hadvance, previous_advance, htext, lastOf_cons, lastOf_cons]
      have ih {previous' : Option Char} (hword' : options.dollarQuotes = true →
          u.rest.head? = some '$' → u.previous.any isWord = previous'.any isWord) :=
        ih (hadvance ▸ hoptions) (hterminator ▸ hvalid) (hterminator ▸ hunmarked.tail) hwhole hword'
      have hmore := ih fun _ _ => congrArg _ hprevious
      rw [hsame] at hshown
      rw [List.flatMap_cons, List.flatMap_cons, kept_eq hcut, keptMask, Placeholders.maskEvent_eq]
      rcases hshown with ⟨hshows, hshown, hplain⟩ | ⟨hhides, hhidden⟩
      · rw [not_leavesOut_of_shows hshows, EventKind.not_hides_of_shows hshows, htext]
        rw [lastOf_cons] at hmore
        refine .plain ?_ (.append_of_not_isOpener hplain hmore)
        exact hidden?_eq_none_of_agrees ((agrees_kept walk hwhole).append text) hshown
      rw [hhides, if_pos rfl]
      split
      · rename_i hout
        refine .plain (hidden?_eq_none_of_not_isOpener (by decide)) (ih fun _ hdollar => ?_)
        have hlast := not_isWord_of_leavesOut hhidden hout hdollar
        rw [List.getLast?_cons] at hlast
        rw [hprevious, lastOf, List.getLast?_cons, Option.some_or, hlast]
        rfl
      · rw [htext]
        have hover := line_kept options walk (hterminator ▸ hne) hwhole
        exact .hidden (hidden?_append_of_agrees hhidden (agrees_kept walk hwhole) fun _ => hover) hmore

/-- A scanner where a statement begins: no word goes on there. -/
structure Begins (options : SplitOptions) (s : Scanner) : Prop where
  isTerminator : SplitOptions.isTerminator s.terminator = true
  word : options.dollarQuotes = true → s.rest.head? = some '$' → s.previous.any isWord = false
  options : s.options = options

/-- The placeholders that are found in the text of a statement stand in the script as code. -/
theorem extract_of_walk {s t : Scanner} {es : List Event} (hs : Begins options s)
    (h : Walk s es t) (hwhole : ∀ e ∈ es, e.isCut = false)
    (hunmarked : Unmarked options s.terminator es t.rest)
    (hfirst : SplitOptions.isTerminator options.terminator.toList = true) {mutes : List Char}
    (hmutes : mutes.all isMute = true) (hline : '\n' ∉ mutes)
    (hinert : Placeholders.Inert options (trim (es.flatMap (kept options)) ++ mutes)) :
    Placeholders.extract options (String.ofList (trim (es.flatMap (kept options)) ++ mutes)) =
      Placeholders.ofTokens (Placeholders.tokens (es.flatMap Placeholders.maskEvent)) := by
  have hmasked : Placeholders.Masked options none (es.flatMap (kept options))
      (es.flatMap (keptMask options)) :=
    masked_kept h hs.options hs.isTerminator hunmarked hwhole hs.word
  obtain ⟨masked, htext, htokens⟩ := hmasked.trim_append hmutes hline
  have htexts : ∀ e ∈ es, e.text ≠ [] := by
    intro e he hnil
    have hcontiguous := h.contiguous (SplitOptions.ne_nil_of_isTerminator hs.isTerminator)
    have hbounds := (hcontiguous.bounds e he).2.1
    rw [Event.stop, hnil] at hbounds
    exact Nat.lt_irrefl _ hbounds
  rw [Placeholders.extract, String.toList_ofList, Placeholders.mask_eq_ok hfirst hinert htext]
  change Placeholders.ofTokens (Placeholders.tokens masked) = _
  rw [htokens, (respaced_keptMask htexts).tokens_eq]

end Script

end SqlBatch
