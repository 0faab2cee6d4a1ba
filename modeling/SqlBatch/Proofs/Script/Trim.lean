import SqlBatch.Proofs.Script.Walk

/-!
# What trimming leaves alone

A text is firm when it neither starts nor ends with a blank. Trimming never cuts into a firm piece
of a text, and each event with code is firm: a word, a character that is no blank, a literal between
its quotes, the words that close a block.
-/

namespace SqlBatch

open Text

namespace Text

theorem not_isBlank_of_isWord {c : Char} (h : isWord c = true) : isBlank c = false := by
  have hword : 0x30 ≤ c.val.toNat ∧ c.val.toNat ≤ 0x7a := by
    change (((decide ('A'.val ≤ c.val ∧ c.val ≤ 'Z'.val) || ('a'.val ≤ c.val && c.val ≤ 'z'.val)) ||
      ('0'.val ≤ c.val && c.val ≤ '9'.val)) || c == '_') = true at h
    simp only [Bool.or_eq_true, Bool.and_eq_true, decide_eq_true_eq, beq_iff_eq,
      UInt32.le_iff_toNat_le] at h
    rcases h with ((⟨hlow, hhigh⟩ | ⟨hlow, hhigh⟩) | ⟨hlow, hhigh⟩) | rfl
    · exact ⟨Nat.le_trans (by decide) hlow, Nat.le_trans hhigh (by decide)⟩
    · exact ⟨Nat.le_trans (by decide) hlow, Nat.le_trans hhigh (by decide)⟩
    · exact ⟨Nat.le_trans (by decide) hlow, Nat.le_trans hhigh (by decide)⟩
    · decide
  rw [← Bool.not_eq_true]
  intro hblank
  simp only [isBlank, Bool.or_eq_true, Bool.and_eq_true, decide_eq_true_eq, beq_iff_eq,
    UInt32.le_iff_toNat_le, ← UInt32.toNat_inj, UInt32.reduceToNat] at hblank
  omega

theorem not_isWord_of_isBlank {c : Char} (h : isBlank c = true) : isWord c = false := by
  rw [← Bool.not_eq_true]
  exact fun hword => Bool.false_ne_true ((not_isBlank_of_isWord hword).symm.trans h)

theorem all_isBlank_of_all_isSpace {cs : List Char} (h : cs.all isSpace = true) :
    cs.all isBlank = true :=
  List.all_eq_true.mpr fun c hc => isBlank_of_isSpace (List.all_eq_true.mp h c hc)

/-! ### Trimming -/

theorem eq_append_trimEnd (cs : List Char) :
    cs = trimEnd cs ++ (cs.reverse.takeWhile isBlank).reverse := by
  rw [trimEnd, ← List.reverse_append, List.takeWhile_append_dropWhile, List.reverse_reverse]

theorem eq_append_trim (cs : List Char) : ∃ post, cs = cs.takeWhile isBlank ++ (trim cs ++ post) :=
  ⟨_, by rw [trim, ← eq_append_trimEnd, trimStart, List.takeWhile_append_dropWhile]⟩

/-- A text that neither starts nor ends with a blank. -/
structure Firm (cs : List Char) : Prop where
  first : ∃ c rest, cs = c :: rest ∧ isBlank c = false
  last : ∃ c rest, cs = rest ++ [c] ∧ isBlank c = false

namespace Firm

theorem singleton {c : Char} (h : isBlank c = false) : Firm [c] where
  first := ⟨c, [], rfl, h⟩
  last := ⟨c, [], rfl, h⟩

theorem around {xs ys : List Char} (hxs : Firm xs) (mid : List Char) (hys : Firm ys) :
    Firm (xs ++ (mid ++ ys)) where
  first := by
    obtain ⟨c, rest, rfl, hc⟩ := hxs.first
    exact ⟨c, rest ++ (mid ++ ys), rfl, hc⟩
  last := by
    obtain ⟨c, rest, rfl, hc⟩ := hys.last
    exact ⟨c, xs ++ (mid ++ rest), by simp only [List.append_assoc], hc⟩

theorem of_all_isWord {cs : List Char} (hne : cs ≠ []) (h : cs.all isWord = true) : Firm cs := by
  rw [List.all_eq_true] at h
  constructor
  · obtain ⟨c, rest, rfl⟩ := List.exists_cons_of_ne_nil hne
    exact ⟨c, rest, rfl, not_isBlank_of_isWord (h c List.mem_cons_self)⟩
  · exact ⟨cs.getLast hne, cs.dropLast, (List.dropLast_concat_getLast hne).symm,
      not_isBlank_of_isWord (h _ (List.getLast_mem hne))⟩

theorem trim_eq {cs : List Char} (h : Firm cs) : trim cs = cs := by
  obtain ⟨c, rest, hfirst, hc⟩ := h.first
  obtain ⟨d, init, hlast, hd⟩ := h.last
  have hstart : trimStart cs = cs := by
    rw [trimStart, hfirst, List.dropWhile_cons_of_neg (by simp [hc])]
  have hreverse : cs.reverse.dropWhile isBlank = cs.reverse := by
    rw [hlast, List.reverse_append, List.reverse_singleton, List.singleton_append,
      List.dropWhile_cons_of_neg (by simp [hd])]
  rw [trim, hstart, trimEnd, hreverse, List.reverse_reverse]

end Firm

theorem takeWhile_prefix_of_not {p : Char → Bool} {c : Char} {xs ys : List Char}
    (hc : p c = false) : (xs ++ c :: ys).takeWhile p <+: xs := by
  rw [List.takeWhile_append, List.takeWhile_cons_of_neg (by simp [hc]), List.append_nil]
  split
  · exact List.prefix_refl xs
  · exact List.takeWhile_prefix p

/-- Trimming leaves the firm pieces of a text whole. -/
theorem Firm.within_trim {cs : List Char} (h : Firm cs) (xs ys : List Char) :
    ∃ pre post, xs = (xs ++ (cs ++ ys)).takeWhile isBlank ++ pre ∧
      trim (xs ++ (cs ++ ys)) = pre ++ (cs ++ post) := by
  obtain ⟨c, rest, hfirst, hc⟩ := h.first
  obtain ⟨d, init, hlast, hd⟩ := h.last
  have hpre : (xs ++ (cs ++ ys)).takeWhile isBlank <+: xs := by
    rw [hfirst, List.cons_append]
    exact takeWhile_prefix_of_not hc
  obtain ⟨pre, hxs⟩ := hpre
  have hstart : trimStart (xs ++ (cs ++ ys)) = pre ++ (cs ++ ys) := by
    apply (List.append_right_inj ((xs ++ (cs ++ ys)).takeWhile isBlank)).mp
    calc (xs ++ (cs ++ ys)).takeWhile isBlank ++ trimStart (xs ++ (cs ++ ys))
        = xs ++ (cs ++ ys) := List.takeWhile_append_dropWhile
      _ = (xs ++ (cs ++ ys)).takeWhile isBlank ++ pre ++ (cs ++ ys) := by rw [hxs]
      _ = (xs ++ (cs ++ ys)).takeWhile isBlank ++ (pre ++ (cs ++ ys)) := List.append_assoc ..
  have hpost : ((pre ++ (cs ++ ys)).reverse.takeWhile isBlank) <+: ys.reverse := by
    rw [hlast]
    simp only [List.reverse_append, List.append_assoc, List.reverse_cons, List.singleton_append]
    exact takeWhile_prefix_of_not hd
  obtain ⟨post, hys⟩ := hpost
  refine ⟨pre, post.reverse, hxs.symm, ?_⟩
  rw [trim, hstart]
  apply (List.append_left_inj ((pre ++ (cs ++ ys)).reverse.takeWhile isBlank).reverse).mp
  rw [← eq_append_trimEnd, List.append_assoc, List.append_assoc, ← List.reverse_append, hys,
    List.reverse_reverse]

end Text

/-! ### Events with code -/

namespace Scanner

open Text

/-- Each lexeme with code is firm. -/
theorem Lexed.firm {s : Scanner} {c : Char} {cs following : List Char} {e : Event}
    (h : Lexed s c cs e.kind e.text.length) (hrest : s.rest = c :: cs)
    (htext : s.rest = e.text ++ following) (hcode : e.isCode = true) : Firm e.text := by
  have hfirst : isWord c = true → Firm s.word := fun first =>
    .of_all_isWord (word_ne_nil hrest first) List.all_takeWhile
  obtain ⟨kind, start, text⟩ := e
  dsimp only at h htext ⊢
  -- A text that begins what is left and is as long as the event is the text of the event.
  have htake : ∀ xs ys, c :: cs = xs ++ ys → text.length = xs.length → text = xs :=
    fun xs ys hxs hlength =>
      (List.append_inj ((htext.symm.trans hrest).trans hxs) hlength).1
  have hword : text.length = s.word.length → text = s.word :=
    htake s.word s.afterWord (hrest.symm.trans (rest_eq_word_append s))
  generalize hn : text.length = n at h
  cases h with
  | terminator | lineComment | blockComment | directive => cases hcode
  | @quoted apart style first plain enabled m closed =>
      obtain ⟨body, rest, rfl, rfl⟩ := Lexeme.quotedLength?_eq_some closed
      have hquote : Firm [style.quote] := .singleton (by cases style <;> decide)
      rw [htake ([style.quote] ++ (body ++ [style.quote])) rest (by simp [first])
        (by simp [hn]; omega)]
      exact hquote.around body hquote
  | dollarQuoted apart first enabled marker other closed =>
      subst first
      obtain ⟨tag, body, rest, m, rfl, heq, hlength⟩ := Lexeme.dollarString_eq marker closed
      have hdollar : Firm ['$'] := .singleton (by decide)
      have hmarker := hdollar.around tag hdollar
      rw [htake _ rest heq (by rw [hn, Nat.zero_add, hlength])]
      exact hmarker.around body hmarker
  | dollar apart first enabled plain =>
      rw [htake [c] cs rfl hn, first]
      exact .singleton (by decide)
  | blockBegin apart first undirected enabled unqualified opens =>
      rw [hword hn]
      exact hfirst first
  | blockEnd apart first undirected enabled unqualified keyword inside closes =>
      rcases Lexeme.endClosesBlock?_eq_some closes with rfl | ⟨hcase, rfl⟩
      · rw [hword hn]
        exact hfirst first
      · obtain ⟨rest, hafter⟩ := Lexeme.nextWord_eq s.afterWord
        have hnext : Firm (Lexeme.nextWord s.afterWord) :=
          .of_all_isWord (Lexeme.nextWord_ne_nil_of_isKeyword hcase) List.all_takeWhile
        rw [htake (s.word ++ (s.afterWord.takeWhile isSpace ++ Lexeme.nextWord s.afterWord)) rest
          (by simp only [List.append_assoc, ← hafter, ← rest_eq_word_append, hrest])
          (by simp only [List.length_append, hn])]
        exact (hfirst first).around _ hnext
  | word apart first plain =>
      rw [hword hn]
      exact hfirst first
  | spaces apart first =>
      exfalso
      have hspaces := htake _ _ List.takeWhile_append_dropWhile.symm hn
      have hblank : text.all isBlank = true := by
        rw [hspaces]
        exact all_isBlank_of_all_isSpace List.all_takeWhile
      simp [Event.isCode, hblank] at hcode
  | other apart notWord notSpace =>
      obtain rfl := htake [c] cs rfl hn
      exact .singleton (by simpa [Event.isCode] using hcode)

theorem Walk.firm {s t : Scanner} {es : List Event} (h : Walk s es t) :
    ∀ e ∈ es, e.isCode = true → Firm e.text := by
  induction h with
  | nil s => exact fun _ hmem => absurd hmem List.not_mem_nil
  | cons step walk ih =>
      obtain ⟨c, cs, hrest, hlexed, htext, -, -⟩ := step_eq_event step
      exact List.forall_mem_cons.mpr ⟨hlexed.firm hrest htext, ih⟩

end Scanner

end SqlBatch
