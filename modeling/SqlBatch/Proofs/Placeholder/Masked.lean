import SqlBatch.Proofs.Placeholder.Tokens
import SqlBatch.Proofs.Script.Placement

/-!
# Texts with their literals and comments blanked out

Which literals and comments a text holds is told by the text alone, character by character, and by
the terminator that scripts begin with, which may be no marker of a dollar string. A text stays
readable in this way when the blanks at its ends are trimmed off and when a mute terminator is put
behind it, and its placeholders stay the same. A scan of the text by itself blanks out what is told
here.
-/

namespace SqlBatch

open Text

/-- The last character before a place behind some text, given the one before the text. -/
def Text.lastOf (previous : Option Char) (cs : List Char) : Option Char := cs.getLast?.or previous

theorem Text.lastOf_cons (previous : Option Char) (c : Char) (cs : List Char) :
    lastOf previous (c :: cs) = lastOf (some c) cs := by
  cases cs with
  | nil => rfl
  | cons d cs => rw [lastOf, lastOf, List.getLast?_cons_cons, List.getLast?_cons, Option.some_or,
      Option.some_or]

namespace Placeholders

open Lexeme

/-- Behind a character, a text and the same text with its literals and comments blanked out. -/
inductive Masked (options : SplitOptions) : Option Char → List Char → List Char → Prop
  | nil (previous : Option Char) : Masked options previous [] []
  | plain {previous : Option Char} {c : Char} {cs masked : List Char}
      (shown : hidden? options options.terminator.toList previous c cs = none)
      (rest : Masked options (some c) cs masked) :
      Masked options previous (c :: cs) (c :: masked)
  | hidden {previous : Option Char} {c : Char} {text cs masked : List Char} {kind : EventKind}
      (hides : hidden? options options.terminator.toList previous c (text ++ cs) =
        some (.ok (kind, text.length + 1)))
      (rest : Masked options (lastOf previous (c :: text)) cs masked) :
      Masked options previous (c :: (text ++ cs))
        (List.replicate (byteLength (c :: text)) ' ' ++ masked)

namespace Masked

variable {options : SplitOptions} {previous : Option Char} {cs masked : List Char}

private theorem congr_previous (h : Masked options previous cs masked) {previous' : Option Char}
    (hword : options.dollarQuotes = true → cs.head? = some '$' →
      previous.any isWord = previous'.any isWord) :
    Masked options previous' cs masked := by
  cases h with
  | nil => exact .nil previous'
  | plain shown rest =>
      rw [hidden?_congr_previous fun hon hc => hword hon (congrArg some hc)] at shown
      exact .plain shown rest
  | hidden hides rest =>
      rw [hidden?_congr_previous fun hon hc => hword hon (congrArg some hc)] at hides
      rw [lastOf_cons] at rest
      exact .hidden hides (by rwa [lastOf_cons])

theorem append_of_not_isOpener {xs : List Char} (hxs : ∀ c ∈ xs, isOpener c = false)
    (h : Masked options (lastOf previous xs) cs masked) :
    Masked options previous (xs ++ cs) (xs ++ masked) := by
  induction xs generalizing previous with
  | nil => exact h
  | cons c xs ih =>
      rw [List.forall_mem_cons] at hxs
      rw [lastOf_cons] at h
      exact .plain (hidden?_eq_none_of_not_isOpener hxs.1) (ih hxs.2 h)

theorem exists_of_append {xs : List Char} (hxs : ∀ c ∈ xs, isOpener c = false)
    (h : Masked options previous (xs ++ cs) masked) :
    ∃ masked', masked = xs ++ masked' ∧ Masked options (lastOf previous xs) cs masked' := by
  induction xs generalizing previous masked with
  | nil => exact ⟨masked, rfl, h⟩
  | cons c xs ih =>
      rw [List.forall_mem_cons] at hxs
      generalize hcs : c :: xs ++ cs = text at h
      cases h with
      | nil => cases hcs
      | plain shown rest =>
          obtain ⟨rfl, rfl⟩ := List.cons.inj hcs
          obtain ⟨masked', rfl, hrest⟩ := ih hxs.2 rest
          rw [lastOf_cons]
          exact ⟨masked', rfl, hrest⟩
      | hidden hides rest =>
          obtain ⟨rfl, -⟩ := List.cons.inj hcs
          rw [hidden?_eq_none_of_not_isOpener hxs.1] at hides
          cases hides

private theorem eq_of_not_isOpener (hcs : ∀ c ∈ cs, isOpener c = false)
    (h : Masked options previous cs masked) : masked = cs := by
  rw [← List.append_nil cs] at h
  obtain ⟨masked', rfl, hnil⟩ := h.exists_of_append hcs
  cases hnil
  exact List.append_nil cs

theorem of_hidden? {c : Char} {text : List Char} {kind : EventKind}
    (hides : hidden? options options.terminator.toList previous c text =
      some (.ok (kind, text.length + 1))) :
    Masked options previous (c :: text) (List.replicate (byteLength (c :: text)) ' ') := by
  rw [← List.append_nil text] at hides
  simpa using Masked.hidden (by simpa using hides) (.nil _)

/-! ### What a text begins with -/

variable {c : Char}

theorem not_error (h : Masked options previous (c :: cs) masked) {construct : Construct} :
    hidden? options options.terminator.toList previous c cs ≠ some (.error construct) := by
  intro herror
  generalize hcs : c :: cs = text at h
  cases h with
  | nil => cases hcs
  | plain shown rest =>
      obtain ⟨rfl, rfl⟩ := List.cons.inj hcs
      rw [shown] at herror
      cases herror
  | hidden hides rest =>
      obtain ⟨rfl, rfl⟩ := List.cons.inj hcs
      rw [hides] at herror
      cases herror

theorem exists_of_shown {text after : List Char}
    (h : Masked options previous (c :: (text ++ after)) masked)
    (hshown : hidden? options options.terminator.toList previous c (text ++ after) = none)
    (htext : ∀ d ∈ text, isOpener d = false) :
    ∃ masked', masked = c :: text ++ masked' ∧
      Masked options (lastOf previous (c :: text)) after masked' := by
  generalize hcs : c :: (text ++ after) = whole at h
  cases h with
  | nil => cases hcs
  | plain shown rest =>
      obtain ⟨rfl, rfl⟩ := List.cons.inj hcs
      obtain ⟨masked', rfl, hrest⟩ := rest.exists_of_append htext
      rw [lastOf_cons]
      exact ⟨masked', rfl, hrest⟩
  | hidden hides rest =>
      obtain ⟨rfl, hwhole⟩ := List.cons.inj hcs
      rw [← hwhole, hshown] at hides
      cases hides

theorem exists_of_hidden {kind : EventKind} {text after : List Char}
    (h : Masked options previous (c :: (text ++ after)) masked)
    (hhidden : hidden? options options.terminator.toList previous c (text ++ after) =
      some (.ok (kind, text.length + 1))) :
    ∃ masked', masked = List.replicate (byteLength (c :: text)) ' ' ++ masked' ∧
      Masked options (lastOf previous (c :: text)) after masked' := by
  generalize hcs : c :: (text ++ after) = whole at h
  cases h with
  | nil => cases hcs
  | plain shown rest =>
      obtain ⟨rfl, rfl⟩ := List.cons.inj hcs
      rw [shown] at hhidden
      cases hhidden
  | hidden hides rest =>
      obtain ⟨rfl, hwhole⟩ := List.cons.inj hcs
      rw [← hwhole, hhidden] at hides
      simp only [Option.some.injEq, Except.ok.injEq, Prod.mk.injEq, Nat.add_right_cancel_iff]
        at hides
      obtain ⟨rfl, rfl⟩ := List.append_inj hwhole hides.2
      exact ⟨_, rfl, rest⟩

/-! ### What is put behind a text or cut off from it -/

theorem of_isMute {cs : List Char} (hcs : cs.all isMute = true) (previous : Option Char) :
    Masked options previous cs cs := by
  induction cs generalizing previous with
  | nil => exact .nil previous
  | cons c cs ih =>
      rw [List.all_cons, Bool.and_eq_true] at hcs
      refine .plain ?_ (ih hcs.2 (some c))
      -- A mute character opens nothing by itself, so nothing before another one either.
      have halone : hidden? options options.terminator.toList previous c [] = none := by
        have hc := hcs.1
        simp only [isMute, Bool.and_eq_true, Bool.not_eq_true', List.contains_eq_mem,
          List.mem_cons, List.not_mem_nil, or_false, decide_eq_false_iff_not, not_or] at hc
        simp [hidden?, hc.2]
      refine hidden?_eq_none_of_agrees ⟨[], cs, [], rfl, rfl, ?_⟩ halone
      cases cs with
      | nil => rfl
      | cons d cs => exact (Bool.and_eq_true_iff.mp ((List.all_cons ..).symm.trans hcs.2)).1

theorem replicate_isMute (n : Nat) : (List.replicate n ' ').all isMute = true :=
  List.all_eq_true.mpr fun _ hc => List.eq_of_mem_replicate hc ▸ by decide

theorem append_mutes (h : Masked options previous cs masked) {mutes : List Char}
    (hmutes : mutes.all isMute = true) (hline : '\n' ∉ mutes) :
    ∃ more, more.all isMute = true ∧ Masked options previous (cs ++ mutes) (masked ++ more) := by
  have hhead : mutes.head?.all isMute = true := by
    cases mutes with
    | nil => rfl
    | cons c mutes => exact (Bool.and_eq_true_iff.mp ((List.all_cons ..).symm.trans hmutes)).1
  induction h with
  | nil previous => exact ⟨mutes, hmutes, of_isMute hmutes previous⟩
  | @plain previous c cs masked shown rest ih =>
      obtain ⟨more, hmore, hrest⟩ := ih
      refine ⟨more, hmore, .plain ?_ hrest⟩
      exact hidden?_eq_none_of_agrees ⟨cs, mutes, [], rfl, (List.append_nil cs).symm, hhead⟩ shown
  | @hidden previous c text cs masked kind hides rest ih =>
      by_cases hlast : kind = .comment .line ∧ cs = []
      · obtain ⟨rfl, rfl⟩ := hlast
        cases rest
        obtain ⟨hc, hopener, henabled, hmem, -⟩ := hidden?_eq_lineComment_iff.mp hides
        have hlong : hidden? options options.terminator.toList previous c (text ++ mutes) =
            some (.ok (.comment .line, (text ++ mutes).length + 1)) := by
          refine hidden?_eq_lineComment_of_end hc ?_ henabled ?_
          · rw [List.head?_append, hopener, Option.some_or]
          · exact fun h => (List.mem_append.mp h).elim hmem hline
        refine ⟨List.replicate (byteLength mutes) ' ', replicate_isMute _, ?_⟩
        rw [List.append_nil, List.append_nil, List.replicate_append_replicate, ← byteLength_append]
        exact .of_hidden? hlong
      · obtain ⟨more, hmore, hrest⟩ := ih
        have hsame := hidden?_append_of_isMute hides hhead fun hkind hnil => by
          rw [Nat.add_sub_cancel, List.drop_left] at hnil
          exact absurd ⟨hkind, hnil⟩ hlast
        rw [List.append_assoc] at hsame
        refine ⟨more, hmore, ?_⟩
        rw [List.append_assoc, List.cons_append, List.append_assoc]
        exact .hidden hsame hrest

theorem mutes_of_blanks (h : Masked options previous cs masked) (hcs : cs.all isBlank = true) :
    masked.all isMute = true := by
  rw [List.all_eq_true] at hcs
  rw [h.eq_of_not_isOpener fun c hc => not_isOpener_of_isBlank (hcs c hc), List.all_eq_true]
  exact fun c hc => isMute_of_isBlank (hcs c hc)

/-- The blanks at the end of a text may be cut off, also when they are the end of a line comment. -/
theorem of_append_blanks {xs blanks : List Char}
    (h : Masked options previous (xs ++ blanks) masked) (hblanks : blanks.all isBlank = true) :
    ∃ masked' more, masked = masked' ++ more ∧ more.all isMute = true ∧
      Masked options previous xs masked' := by
  generalize hcs : xs ++ blanks = cs at h
  induction h generalizing xs with
  | nil previous =>
      obtain ⟨rfl, rfl⟩ := List.append_eq_nil_iff.mp hcs
      exact ⟨[], [], rfl, rfl, .nil previous⟩
  | @plain previous c cs masked shown rest ih =>
      cases xs with
      | nil => exact ⟨[], _, rfl, (Masked.plain shown rest).mutes_of_blanks (hcs ▸ hblanks), .nil _⟩
      | cons d xs =>
          obtain ⟨rfl, rfl⟩ := List.cons.inj hcs
          obtain ⟨masked', more, rfl, hmore, hrest⟩ := ih rfl
          refine ⟨d :: masked', more, rfl, hmore, .plain ?_ hrest⟩
          exact hidden?_eq_none_of_agrees (.of_isPrefix (List.prefix_append xs blanks)) shown
  | @hidden previous c text cs masked kind hides rest ih =>
      cases xs with
      | nil =>
          exact ⟨[], _, rfl, (Masked.hidden hides rest).mutes_of_blanks (hcs ▸ hblanks), .nil _⟩
      | cons d xs =>
          obtain ⟨rfl, happend⟩ := List.cons.inj hcs
          rcases List.append_eq_append_iff.mp happend with ⟨inner, rfl, rfl⟩ | ⟨inner, rfl, rfl⟩
          · -- The blanks begin within the literal or comment.
            obtain ⟨hinner, hcs⟩ := Bool.and_eq_true_iff.mp (List.all_append.symm.trans hblanks)
            refine ⟨_, List.replicate (byteLength inner) ' ' ++ masked, ?_, ?_,
              .of_hidden? (hidden?_of_append_blanks hinner hides)⟩
            · rw [← List.append_assoc, List.replicate_append_replicate,
                ← byteLength_append]
              rfl
            · rw [List.all_append, replicate_isMute, rest.mutes_of_blanks hcs]
              rfl
          · -- They begin behind it.
            obtain ⟨masked', more, rfl, hmore, hrest⟩ := ih rfl
            have hshort := hidden?_append_of_agrees hides
              (.of_isPrefix (List.prefix_append inner blanks)) fun _ hline => by
                cases inner with
                | nil => exact .inl rfl
                | cons e inner => exact .inr (hline.resolve_left (List.cons_ne_nil e _))
            exact ⟨_, more, (List.append_assoc ..).symm, hmore, .hidden hshort hrest⟩

/-- A text that is trimmed and has a mute terminator put behind it has the same placeholders. -/
theorem trim_append (h : Masked options none cs masked) {mutes : List Char}
    (hmutes : mutes.all isMute = true) (hline : '\n' ∉ mutes) :
    ∃ masked', Masked options none (trim cs ++ mutes) masked' ∧ tokens masked' = tokens masked := by
  have hblanks : (cs.takeWhile isBlank).all isBlank = true := List.all_takeWhile
  have hstart : cs = cs.takeWhile isBlank ++ trimStart cs :=
    List.takeWhile_append_dropWhile.symm
  rw [hstart] at h
  obtain ⟨masked, rfl, hrest⟩ := h.exists_of_append fun c hc =>
    not_isOpener_of_isBlank (List.all_eq_true.mp hblanks c hc)
  -- No blank is a part of a word, so the text may as well be the first one there is.
  have hfirst : Masked options none (trimStart cs) masked := by
    refine hrest.congr_previous fun _ _ => ?_
    rw [lastOf, Option.or_none]
    cases hlast : (cs.takeWhile isBlank).getLast? with
    | none => rfl
    | some d =>
        have hd := List.all_eq_true.mp hblanks d (List.mem_of_getLast? hlast)
        exact not_isWord_of_isMute (isMute_of_isBlank hd)
  rw [eq_append_trimEnd (trimStart cs)] at hfirst
  obtain ⟨masked, cut, rfl, hcut, hfirst⟩ := hfirst.of_append_blanks (by
    rw [List.all_reverse]
    exact List.all_takeWhile)
  obtain ⟨more, hmore, hwhole⟩ := hfirst.append_mutes hmutes hline
  refine ⟨masked ++ more, hwhole, ?_⟩
  have hmute : (cs.takeWhile isBlank).all isMute = true := List.all_eq_true.mpr fun c hc =>
    isMute_of_isBlank (List.all_eq_true.mp hblanks c hc)
  rw [tokens_append_mutes hmore, tokens_mutes_append hmute, tokens_append_mutes hcut]

end Masked

end Placeholders

end SqlBatch
