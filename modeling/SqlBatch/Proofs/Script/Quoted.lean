import SqlBatch.Proofs.Script.Nested

/-!
# Values between quotes

A value that is put between quotes, with each quote in it doubled, is one literal wherever it stands
and whatever it holds, as long as no other quote follows. In turn each literal between quotes is a
value put down in this way, and of one value only, unless backslashes hide characters. For dollar
strings the marker takes the place of the quotes: the literal goes to the next place where the
marker stands again.

So a quoted value never breaks out. A statement made with one is that statement, and what comes
after it is split as it is by itself.
-/

namespace SqlBatch

open Text Scanner

/-! ### Quoting -/

/-- What stands between quotes for a value: each quote is doubled, and each backslash where it would
hide the character after it. -/
def doubled (quote : Char) (backslash : Bool) (value : List Char) : List Char :=
  value.flatMap fun c => if c = quote || (backslash && c = '\\') then [c, c] else [c]

def LiteralStyle.quoted (style : LiteralStyle) (backslash : Bool) (value : List Char) : List Char :=
  style.quote :: (doubled style.quote backslash value ++ [style.quote])

section

variable {quote : Char} {backslash : Bool}

theorem doubled_cons (c : Char) (value : List Char) :
    doubled quote backslash (c :: value) =
      (if c = quote || (backslash && c = '\\') then [c, c] else [c]) ++
        doubled quote backslash value :=
  List.flatMap_cons

theorem doubled_injective {v w : List Char}
    (h : doubled quote backslash v = doubled quote backslash w) : v = w := by
  induction v generalizing w with
  | nil =>
      cases w with
      | nil => rfl
      | cons d w =>
          rw [doubled_cons] at h
          split at h <;> cases h
  | cons c v ih =>
      cases w with
      | nil =>
          rw [doubled_cons] at h
          split at h <;> cases h
      | cons d w =>
          -- What stands for a character begins with it.
          have hhead : c = d := by
            have hfirst := congrArg List.head? h
            rw [doubled_cons, doubled_cons] at hfirst
            split at hfirst <;> split at hfirst <;> simpa using hfirst
          subst hhead
          rw [doubled_cons, doubled_cons, List.append_cancel_left_eq] at h
          rw [ih h]

/-- A quoted value ends at its last quote when no other one follows. -/
theorem quotedLength?_doubled (hquote : quote ≠ '\\') (value : List Char) {after : List Char}
    (hafter : after.head? ≠ some quote) :
    Lexeme.quotedLength? quote backslash (doubled quote backslash value ++ quote :: after) =
      some ((doubled quote backslash value).length + 1) := by
  induction value with
  | nil =>
      cases after with
      | nil => simp [doubled, Lexeme.quotedLength?]
      | cons d after =>
          have hd : d ≠ quote := by simpa using hafter
          simp [doubled, Lexeme.quotedLength?, hquote, hd]
  | cons c value ih =>
      rw [doubled_cons]
      by_cases hdouble : c = quote ∨ backslash = true ∧ c = '\\'
      · rw [if_pos (by simpa using hdouble)]
        rcases hdouble with rfl | ⟨rfl, rfl⟩
        · simp [Lexeme.quotedLength?, hquote, ih]
        · simp [Lexeme.quotedLength?, ih]
      · rw [if_neg (by simpa using hdouble)]
        obtain ⟨hother, hplain⟩ := not_or.mp hdouble
        obtain ⟨d, more, hmore⟩ : ∃ d more,
            doubled quote backslash value ++ quote :: after = d :: more :=
          List.exists_cons_of_ne_nil (by simp)
        rw [List.append_assoc, List.singleton_append, hmore, Lexeme.quotedLength?, ← hmore, ih]
        simp [hother, hplain]

/-- Where backslashes hide nothing, every text up to the closing quote stands for a value. -/
theorem exists_doubled (hbackslash : backslash = false) {cs : List Char} {n : Nat}
    (h : Lexeme.quotedLength? quote backslash cs = some n) :
    ∃ value, cs.take n = doubled quote backslash value ++ [quote] := by
  fun_induction Lexeme.quotedLength? quote backslash cs generalizing n with
  | case1 => cases h
  | case2 =>
      obtain rfl := Option.some.inj h
      exact ⟨[], rfl⟩
  | case3 => cases h
  | case4 c d cs hescape ih => simp [hbackslash] at hescape
  | case5 cs hescape ih =>
      obtain ⟨m, hm, rfl⟩ := Option.map_eq_some_iff.mp h
      obtain ⟨value, hvalue⟩ := ih hm
      refine ⟨quote :: value, ?_⟩
      rw [doubled_cons, if_pos (by simp), List.append_assoc, ← hvalue]
      rfl
  | case6 d cs hd hescape =>
      obtain rfl := Option.some.inj h
      exact ⟨[], rfl⟩
  | case7 c d cs hescape hc ih =>
      obtain ⟨m, hm, rfl⟩ := Option.map_eq_some_iff.mp h
      obtain ⟨value, hvalue⟩ := ih hm
      refine ⟨c :: value, ?_⟩
      rw [doubled_cons, if_neg (by simp [hc, hbackslash]), List.append_assoc, ← hvalue]
      rfl

end

/-- What a dollar string opens and closes with: a name or nothing between two dollars. -/
def IsMarker (marker : List Char) : Prop :=
  ∃ tag, marker = '$' :: (tag ++ ['$']) ∧ tag.all isWord = true ∧
    (tag ≠ [] → tag.head?.any isNameStart = true)

private theorem dollarMarkerLength?_of_isMarker {marker : List Char} (h : IsMarker marker)
    (rest : List Char) {previous : Option Char} (hprevious : previous.any isWord = false) :
    ∃ cs, marker ++ rest = '$' :: cs ∧
      Lexeme.dollarMarkerLength? previous cs = some marker.length := by
  obtain ⟨tag, rfl, hword, hstart⟩ := h
  refine ⟨tag ++ '$' :: rest, by simp, Lexeme.dollarMarkerLength?_eq_some_iff.mpr
    ⟨hprevious, tag, rest, rfl, hword, hstart, ?_⟩⟩
  simp

namespace Scanner

variable {s t : Scanner} {e : Event}

theorem not_atTerminator
    (h : Lexeme.terminatorAt s.terminator s.previous s.rest = false ∨ 0 < s.depth) :
    s.atTerminator = false := by
  rw [atTerminator]
  rcases h with hnone | hinside
  · rw [hnone, Bool.and_false, Bool.false_and]
  · have hblocks : s.openBlocks.isEmpty = false :=
      List.isEmpty_eq_false_iff.mpr (List.length_pos_iff.mp hinside)
    rw [hblocks, Bool.false_and, Bool.false_and]

theorem step_of_hides {c : Char} {cs text after : List Char} {kind : EventKind}
    (hapart : s.atTerminator = false) (hrest : s.rest = text ++ after)
    (hcons : text ++ after = c :: cs) {n : Nat}
    (h : Lexeme.Hides s.options s.terminator s.previous c cs kind n) (hlength : text.length = n) :
    s.step = .event ⟨kind, s.offset, text⟩ (s.advance ⟨kind, s.offset, text⟩) := by
  subst hlength
  have hlexeme : s.lexeme c cs = .ok (kind, text.length) := by
    rw [lexeme_eq, hapart, if_neg Bool.false_ne_true, h.hidden?_eq, Option.getD_some]
  have hevent : s.event kind text.length = ⟨kind, s.offset, text⟩ := by
    rw [event, hrest, List.take_left]
  rw [step_of_lexeme (hrest.trans hcons) hlexeme, hevent]

theorem step_of_quoted {style : LiteralStyle} {value after : List Char}
    (hplain : style ≠ .dollar) (henabled : style = .backtick → s.options.backtickIdentifiers = true)
    (hapart : s.atTerminator = false)
    (hrest : s.rest = style.quoted (style.escapes s.options) value ++ after)
    (hafter : after.head? ≠ some style.quote) :
    s.step = .event ⟨.literal style, s.offset, style.quoted (style.escapes s.options) value⟩
      (s.advance ⟨.literal style, s.offset, style.quoted (style.escapes s.options) value⟩) := by
  have hquote : style.quote ≠ '\\' := by cases style <;> decide
  have hclosed : Lexeme.quotedLength? style.quote (style.escapes s.options) _ = _ :=
    quotedLength?_doubled hquote value hafter
  have hlength : (style.quoted (style.escapes s.options) value).length =
      1 + ((doubled style.quote (style.escapes s.options) value).length + 1) := by
    rw [LiteralStyle.quoted, List.length_cons, List.length_append, List.length_singleton,
      Nat.add_comm]
  have hcons : style.quoted (style.escapes s.options) value ++ after =
      style.quote :: (doubled style.quote (style.escapes s.options) value ++
        style.quote :: after) := by
    simp [LiteralStyle.quoted]
  exact step_of_hides hapart hrest hcons (.quoted rfl hplain henabled hclosed) hlength

private theorem quotedLength?_of_step (h : s.step = .event e t) {style : LiteralStyle}
    (hkind : e.kind = .literal style) (hplain : style ≠ .dollar) :
    ∃ cs n, Lexeme.quotedLength? style.quote (style.escapes s.options) cs = some n ∧
      e.text = style.quote :: cs.take n ∧ t.rest = cs.drop n := by
  obtain ⟨c, cs, hrest, hlexed, htext, -, rfl⟩ := step_eq_event h
  rw [hkind] at hlexed
  generalize hlength : e.text.length = length at hlexed
  cases hlexed with
  | @quoted apart style first plain enabled n closed =>
      have htake : e.text = (c :: cs).take (1 + n) := by
        rw [← hrest, htext, ← hlength, List.take_left]
      refine ⟨cs, n, closed, ?_, ?_⟩
      · rw [htake, first, Nat.add_comm, List.take_succ_cons]
      · rw [advance, hlength, hrest, Nat.add_comm, List.drop_succ_cons]
  | dollarQuoted => exact absurd rfl hplain

/-- A literal between quotes is a quoted value where backslashes hide nothing. -/
theorem quoted_of_step (h : s.step = .event e t) {style : LiteralStyle}
    (hkind : e.kind = .literal style) (hplain : style ≠ .dollar)
    (hbackslash : s.options.backslashEscapes = false) :
    (∃! value, e.text = style.quoted false value) ∧ t.rest.head? ≠ some style.quote := by
  have hescapes : style.escapes s.options = false := by
    cases style <;> first | rfl | exact hbackslash
  obtain ⟨cs, n, hclosed, htext, hrest⟩ := quotedLength?_of_step h hkind hplain
  rw [hescapes] at hclosed
  constructor
  · obtain ⟨value, hvalue⟩ := exists_doubled rfl hclosed
    refine ⟨value, by rw [htext, hvalue]; rfl, fun other hother => ?_⟩
    rw [htext, hvalue] at hother
    exact (doubled_injective (List.append_cancel_right (List.cons.inj hother).2)).symm
  · rw [hrest]
    exact Lexeme.head?_drop_of_quotedLength? hclosed

theorem step_of_dollarQuoted {marker body after : List Char} (hmarker : IsMarker marker)
    (henabled : s.options.dollarQuotes = true) (hprevious : s.previous.any isWord = false)
    (hother : marker ≠ s.terminator)
    (hbody : position? marker (body ++ marker) = some body.length)
    (hapart : s.atTerminator = false) (hrest : s.rest = marker ++ (body ++ marker) ++ after) :
    s.step = .event ⟨.literal .dollar, s.offset, marker ++ (body ++ marker)⟩
      (s.advance ⟨.literal .dollar, s.offset, marker ++ (body ++ marker)⟩) := by
  have hclosed : position? marker (body ++ marker ++ after) = some body.length := by
    have hlonger := position?_append hbody after
    rwa [List.take_of_length_le (by simp)] at hlonger
  rw [List.append_assoc] at hrest
  obtain ⟨cs, hcs, hmark⟩ := dollarMarkerLength?_of_isMarker hmarker (body ++ marker ++ after)
    hprevious
  have htake : ('$' :: cs).take marker.length = marker := by rw [← hcs, List.take_left]
  have hdrop : ('$' :: cs).drop marker.length = body ++ marker ++ after := by
    rw [← hcs, List.drop_left]
  have hlength : (marker ++ (body ++ marker)).length =
      0 + (marker.length + body.length + marker.length) := by
    simp only [List.length_append]
    omega
  have hstring : Lexeme.dollarQuotedLength? (('$' :: cs).take marker.length)
      (('$' :: cs).drop marker.length) =
        some (marker.length + body.length + marker.length) := by
    rw [htake, hdrop, Lexeme.dollarQuotedLength?, hclosed]
    rfl
  exact step_of_hides hapart (hrest.trans (List.append_assoc ..).symm)
    ((List.append_assoc ..).trans hcs)
    (.dollarQuoted rfl henabled hmark (htake.symm ▸ hother) hstring) hlength

/-- A dollar string is a body between two equal markers, and the marker does not stand before the
end of the body. -/
theorem dollarQuoted_of_step (h : s.step = .event e t) (hkind : e.kind = .literal .dollar) :
    ∃ marker body, IsMarker marker ∧ marker ≠ s.terminator ∧ s.previous.any isWord = false ∧
      e.text = marker ++ (body ++ marker) ∧
      position? marker (body ++ marker) = some body.length := by
  obtain ⟨c, cs, hrest, hlexed, htext, -, -⟩ := step_eq_event h
  rw [hkind] at hlexed
  generalize hlength : e.text.length = length at hlexed
  cases hlexed with
  | quoted apart first plain => exact absurd rfl plain
  | @dollarQuoted apart first enabled m n marker other closed =>
      subst first
      obtain ⟨hprevious, tag, rest, rfl, hword, hstart, rfl⟩ :=
        Lexeme.dollarMarkerLength?_eq_some_iff.mp marker
      rw [Lexeme.take_marker] at other
      rw [Lexeme.take_marker, Lexeme.drop_marker] at closed
      have hmarker : IsMarker ('$' :: (tag ++ ['$'])) := ⟨tag, rfl, hword, hstart⟩
      have hwhole : '$' :: (tag ++ '$' :: rest) = '$' :: (tag ++ ['$']) ++ rest := by simp
      rw [hwhole] at hrest
      generalize '$' :: (tag ++ ['$']) = mark at hmarker other closed hrest
      obtain ⟨k, hposition, rfl⟩ := Option.map_eq_some_iff.mp closed
      have hbody := position?_append hposition []
      obtain ⟨body, after, rfl, rfl⟩ := position?_eq_some hposition
      have htake : (body ++ (mark ++ after)).take (body.length + mark.length) = body ++ mark := by
        rw [← List.append_assoc, List.take_left' (by simp)]
      rw [htake, List.append_nil] at hbody
      refine ⟨mark, body, hmarker, other, hprevious, ?_, hbody⟩
      rw [hrest, ← List.append_assoc, ← List.append_assoc, List.append_assoc mark body] at htext
      refine (List.append_inj htext.symm ?_).1
      rw [hlength]
      simp only [List.length_append]
      omega

end Scanner

/-! ### A statement with a quoted value -/

private theorem passes_select {after : List Char} (hafter : after.head?.any isSpace = false) :
    Passes ("SELECT".toList ++ [' ']) after 0 0 := by
  have hword : Passes "SELECT".toList ([' '] ++ after) 0 0 := by
    apply passes_of_step
    intro s hs
    apply hs.exists_step_of_word (by decide) (by decide) rfl (.inr (by decide)) _ (.code 0)
    intro hsame _
    rw [hs.keywordLexeme_eq, hsame]
    rfl
  have hspace : Passes [' '] after 0 0 := by
    apply passes_of_step
    intro s hs
    have hnone : after.takeWhile isSpace = [] := takeWhile_append_of_head? hafter []
    apply At.exists_step hs (by decide) (.inr (by decide)) (by decide) _ (.code 0)
    rw [visibleLexeme, if_neg (by decide), if_pos (by decide),
      List.takeWhile_cons_of_pos (by decide), List.nil_append, hnone]
    rfl
  exact hword.append hspace

namespace Script

theorem split_of_walk {statement : List Char} {following : String} {es : List Event} {t : Scanner}
    (hwalk : Walk (start {} (statement ++ ';' :: '\n' :: following.toList)) es t)
    (hrest : t.rest = ';' :: '\n' :: following.toList) (hterminator : t.terminator = [';'])
    (hblocks : t.openBlocks = []) (hes : ∀ e ∈ es, e.isCut = false)
    (hcode : es.any Event.isCode = true) (hfirm : Firm statement) {texts : List String}
    (h : split {} following = .ok texts) :
    split {} (String.ofList statement ++ ";\n" ++ following) =
      .ok (String.ofList statement :: texts) := by
  have hvalid : ({} : SplitOptions).Valid := by decide
  have hseparates : Lexeme.Separates ({} : SplitOptions).terminator.toList :=
    ⟨hvalid.1, by decide⟩
  have hconcat : Event.concat es = statement := by
    have hscript := hwalk.script_eq
    rw [hrest] at hscript
    exact (List.append_cancel_right hscript).symm
  have hwhole : (String.ofList statement ++ ";\n" ++ following).toList =
      statement ++ ';' :: '\n' :: following.toList := by
    rw [String.toList_append, String.toList_append, String.toList_ofList, List.append_assoc]
    rfl
  have hlength : byteLength (statement ++ [';', '\n']) + byteLength following.toList =
      byteLength (statement ++ ';' :: '\n' :: following.toList) := by
    rw [← byteLength_append, List.append_assoc]
    rfl
  obtain ⟨e, fs, hkind, -, hevents, hbehind, hending⟩ :=
    collect_of_walk_to_seam rfl hseparates hwalk hrest hterminator hblocks hlength
  have hfirst : (collect {} [] false (es ++ e :: fs)).map (·.text) =
      String.ofList statement :: (collect {} [] false fs).map (·.text) := by
    rw [collect_append_of_not_isCut hes, flatMap_kept rfl hes, hconcat, hcode, List.append_nil,
      Bool.or_true, collect, hkind]
    dsimp only
    rw [List.map_append, text_close rfl rfl, if_pos rfl, List.reverse_reverse, hfirm.trim_eq]
    rfl
  have herror := Scan.error?_moved hending following.toList
  rw [List.append_assoc] at herror
  rw [split_eq hvalid] at h ⊢
  rw [hwhole, hevents, hfirst, hbehind]
  cases hfollowing : (scan {} following.toList).error? following.toList with
  | some e =>
      rw [hfollowing] at h
      cases h
  | none =>
      rw [hfollowing] at h herror
      have hnone : (scan {} (statement ++ ';' :: '\n' :: following.toList)).error?
          (statement ++ ';' :: '\n' :: following.toList) = none := herror
      rw [← Except.ok.inj h, hnone]

private theorem firm_quoted (style : LiteralStyle) (backslash : Bool) (value : List Char) :
    Firm (style.quoted backslash value) := by
  have hquote : Firm [style.quote] := .singleton (by cases style <;> decide)
  exact hquote.around _ hquote

/-- The text of a statement that selects a quoted value. -/
def selecting (style : LiteralStyle) (value : List Char) : List Char :=
  "SELECT".toList ++ [' '] ++ style.quoted false value

private theorem selecting_append (style : LiteralStyle) (value after : List Char) :
    selecting style value ++ after =
      "SELECT".toList ++ [' '] ++ (style.quoted false value ++ after) :=
  List.append_assoc ("SELECT".toList ++ [' ']) _ _

theorem walk_selecting {style : LiteralStyle} (hplain : style ≠ .dollar) (value : List Char)
    {after : List Char} (hafter : after.head? ≠ some style.quote) :
    ∃ es t, Walk (start {} (selecting style value ++ after)) es t ∧ t.rest = after ∧
      t.terminator = [';'] ∧ t.openBlocks = [] ∧ (∀ e ∈ es, e.isCut = false) ∧
      es.any Event.isCode = true := by
  have hs : At ("SELECT".toList ++ [' '] ++ (style.quoted false value ++ after)) 0
      (start {} (selecting style value ++ after)) := by
    rw [selecting_append]
    exact ⟨rfl, rfl, rfl, rfl, nofun⟩
  obtain ⟨es, s, hwalk, hat, hes⟩ := passes_select (by cases style <;> rfl) _ hs
  have hescapes : style.escapes s.options = false := by
    rw [hat.options]
    cases style <;> rfl
  have hapart : s.atTerminator = false := by
    have hquote : style.quote ≠ ';' := by cases style <;> decide
    rw [← Bool.not_eq_true]
    intro here
    obtain ⟨-, following, hrest⟩ := rest_of_atTerminator here
    rw [hat.rest, hat.terminator] at hrest
    exact hquote (List.cons.inj hrest).1
  have hrest := hat.rest
  rw [← hescapes] at hrest
  have hstep := step_of_quoted hplain (fun _ => by rw [hat.options]) hapart hrest hafter
  refine ⟨es ++ [_], _, hwalk.append (.cons hstep (.nil _)), ?_, hat.terminator,
    List.length_eq_zero_iff.mp hat.depth,
    List.forall_mem_append.mpr ⟨hes, List.forall_mem_singleton.mpr rfl⟩, ?_⟩
  · rw [advance, hrest]
    exact List.drop_left
  · rw [List.any_append, Bool.or_eq_true]
    exact .inr rfl

private theorem split_selecting {style : LiteralStyle} (hplain : style ≠ .dollar)
    (value : List Char) {following : String} {texts : List String}
    (h : split {} following = .ok texts) :
    split {} (String.ofList (selecting style value) ++ ";\n" ++ following) =
      .ok (String.ofList (selecting style value) :: texts) := by
  have hfirm : Firm (selecting style value) := by
    have hword : Firm "SELECT".toList := .of_all_isWord (by decide) (by decide)
    have haround := hword.around [' '] (firm_quoted style false value)
    rwa [← List.append_assoc] at haround
  have hquote : ';' ≠ style.quote := by cases style <;> decide
  have hafter : (';' :: '\n' :: following.toList).head? ≠ some style.quote := by simpa using hquote
  obtain ⟨es, t, hwalk, hrest, hterminator, hblocks, hes, hcode⟩ :=
    walk_selecting hplain value hafter
  exact split_of_walk hwalk hrest hterminator hblocks hes hcode hfirm h

end Script

/-- **A quoted value does not break out.** A scanner in front of a value between quotes takes it for
one literal, whatever the value holds and whatever comes after it but another quote. Where
backslashes hide nothing, each literal between quotes is one value quoted, and no other quote
follows. A scanner in front of a dollar string takes it through the first place where its marker
stands again, and each dollar string is of this shape. So a statement that selects a quoted value is
split off, and what follows it is split as it is by itself. -/
theorem quoted_values_stay_quoted :
    (∀ (s : Scanner) (style : LiteralStyle) (value after : List Char), style ≠ .dollar →
      (style = .backtick → s.options.backtickIdentifiers = true) →
      s.rest = style.quoted (style.escapes s.options) value ++ after →
      after.head? ≠ some style.quote →
      (Lexeme.terminatorAt s.terminator s.previous s.rest = false ∨ 0 < s.depth) →
      ∃ t, s.step =
        .event ⟨.literal style, s.offset, style.quoted (style.escapes s.options) value⟩ t ∧
        t.rest = after) ∧
    (∀ (s t : Scanner) (e : Event) (style : LiteralStyle), s.step = .event e t →
      e.kind = .literal style → style ≠ .dollar → s.options.backslashEscapes = false →
      (∃! value, e.text = style.quoted false value) ∧ t.rest.head? ≠ some style.quote) ∧
    (∀ (s : Scanner) (marker body after : List Char), IsMarker marker →
      s.options.dollarQuotes = true → s.previous.any isWord = false → marker ≠ s.terminator →
      position? marker (body ++ marker) = some body.length →
      s.rest = marker ++ (body ++ marker) ++ after →
      (Lexeme.terminatorAt s.terminator s.previous s.rest = false ∨ 0 < s.depth) →
      ∃ t, s.step = .event ⟨.literal .dollar, s.offset, marker ++ (body ++ marker)⟩ t ∧
        t.rest = after) ∧
    (∀ (s t : Scanner) (e : Event), s.step = .event e t → e.kind = .literal .dollar →
      ∃ marker body, IsMarker marker ∧ marker ≠ s.terminator ∧ s.previous.any isWord = false ∧
        e.text = marker ++ (body ++ marker) ∧
        position? marker (body ++ marker) = some body.length) ∧
    ∀ (style : LiteralStyle) (value : List Char) (following : String) (texts : List String),
      style ≠ .dollar → Script.split {} following = .ok texts →
      Script.split {}
          (String.ofList ("SELECT ".toList ++ style.quoted false value) ++ ";\n" ++ following) =
        .ok (String.ofList ("SELECT ".toList ++ style.quoted false value) :: texts) := by
  have hbehind {s t : Scanner} {text after : List Char} {kind : EventKind}
      (hrest : s.rest = text ++ after)
      (hstep : s.step = .event ⟨kind, s.offset, text⟩ t) : t.rest = after := by
    have h := rest_of_step hstep
    rw [hrest] at h
    exact (List.append_cancel_left h).symm
  refine ⟨?_, ?_, ?_, ?_, ?_⟩
  · intro s style value after hplain henabled hrest hafter hat
    have hstep := step_of_quoted hplain henabled (not_atTerminator hat) hrest hafter
    exact ⟨_, hstep, hbehind hrest hstep⟩
  · exact fun s t e style hstep hkind hplain hbackslash =>
      quoted_of_step hstep hkind hplain hbackslash
  · intro s marker body after hmarker henabled hprevious hother hbody hrest hat
    have hstep := step_of_dollarQuoted hmarker henabled hprevious hother hbody
      (not_atTerminator hat) hrest
    exact ⟨_, hstep, hbehind hrest hstep⟩
  · exact fun s t e hstep hkind => dollarQuoted_of_step hstep hkind
  · exact fun style value following texts hplain h => Script.split_selecting hplain value h

/-- A value that would end the statement and begin another stays in its quotes. A dollar string
holds quotes, semicolons and other markers. -/
theorem quoted_values_stay_quoted_injection :
    LiteralStyle.singleQuoted.quoted false "'; DROP t;--".toList = "'''; DROP t;--'".toList ∧
    Script.split {} "x;y" = .ok ["x", "y"] ∧
    Script.split {} "SELECT '''; DROP t;--';\nx;y" = .ok ["SELECT '''; DROP t;--'", "x", "y"] ∧
    IsMarker "$a$".toList ∧ position? "$a$".toList "';$b$$a$".toList = some 5 ∧
    ∃ t, (start {} "$a$';$b$$a$;".toList).step =
      .event ⟨.literal .dollar, 0, "$a$';$b$$a$".toList⟩ t ∧ t.rest = [';'] := by
  have hquoted : LiteralStyle.singleQuoted.quoted false "'; DROP t;--".toList =
      "'''; DROP t;--'".toList := by decide
  have hsplit : Script.split {} "x;y" = .ok ["x", "y"] := rfl
  have hmarker : IsMarker "$a$".toList := ⟨['a'], by decide, by decide, fun _ => by decide⟩
  have hbody : position? "$a$".toList "';$b$$a$".toList = some 5 := by decide
  obtain ⟨-, -, hdollar, -, hselect⟩ := quoted_values_stay_quoted
  have hstatement := hselect .singleQuoted "'; DROP t;--".toList "x;y" _ (by decide) hsplit
  rw [hquoted] at hstatement
  refine ⟨hquoted, hsplit, hstatement, hmarker, hbody, ?_⟩
  exact hdollar (start {} "$a$';$b$$a$;".toList) "$a$".toList "';$b$".toList [';'] hmarker rfl rfl
    (by decide) hbody rfl (.inl (by decide))

end SqlBatch
