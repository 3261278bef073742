import Vnctlsd.Python.Text

/-! `str.strip()` and `str.split()`: what stands around the words of a text. -/
namespace Vnctlsd.Python.Text

/-- The words from here on, where `word` is the one that has been begun. -/
def splitFrom (word : List Char) : List Char → List String
  | [] => if word = [] then [] else [String.ofList word]
  | c :: rest =>
      if isSpace c then
        if word = [] then splitFrom [] rest else String.ofList word :: splitFrom [] rest
      else splitFrom (word ++ [c]) rest

def split (s : String) : List String := splitFrom [] s.toList

example : split "  console\tvm-01  now" = ["console", "vm-01", "now"] := by decide

def NoSpace (word : List Char) : Prop := ∀ c ∈ word, isSpace c = false

structure IsWord (word : List Char) : Prop where
  nonempty : word ≠ []
  noSpace : NoSpace word

theorem splitFrom_word {word more : List Char} (hmore : NoSpace more) (rest : List Char) :
    splitFrom word (more ++ rest) = splitFrom (word ++ more) rest := by
  induction more generalizing word with
  | nil => rw [List.nil_append, List.append_nil]
  | cons c more ih =>
      obtain ⟨hc, hrest⟩ := List.forall_mem_cons.mp hmore
      rw [List.cons_append, splitFrom, if_neg (Bool.not_eq_true _ ▸ hc), ih hrest,
        List.append_assoc, List.singleton_append]

theorem IsWord.splitFrom_space {word : List Char} (h : IsWord word) {c : Char}
    (hspace : isSpace c = true) (rest : List Char) :
    splitFrom [] (word ++ c :: rest) = String.ofList word :: splitFrom [] rest := by
  rw [splitFrom_word h.noSpace, List.nil_append, splitFrom, if_pos hspace, if_neg h.nonempty]

theorem IsWord.splitFrom_end {word : List Char} (h : IsWord word) :
    splitFrom [] word = [String.ofList word] := by
  have hword := @splitFrom_word [] _ h.noSpace []
  rw [List.append_nil, List.nil_append] at hword
  rw [hword, splitFrom, if_neg h.nonempty]

/-- The first word stands in the text, and the others are those behind the space that
ends it. -/
theorem splitFrom_cons {word text : List Char} {first : String} {others : List String}
    (hword : NoSpace word) (h : splitFrom word text = first :: others) :
    IsWord first.toList ∧ ∃ before after, word ++ text = before ++ first.toList ++ after ∧
      (others = [] ∨ ∃ gap tail, after = gap :: tail ∧ isSpace gap = true ∧
        others = splitFrom [] tail) := by
  induction text generalizing word with
  | nil =>
      rw [splitFrom] at h
      split at h
      · cases h
      · rename_i hne
        cases h
        rw [String.toList_ofList]
        exact ⟨⟨hne, hword⟩, [], [], by simp, .inl rfl⟩
  | cons c rest ih =>
      rw [splitFrom] at h
      split at h
      · rename_i hspace
        split at h
        · rename_i hempty
          obtain ⟨hfirst, before, after, htext, hothers⟩ :=
            ih (fun _ hmem => absurd hmem List.not_mem_nil) h
          refine ⟨hfirst, c :: before, after, ?_, hothers⟩
          rw [hempty, List.nil_append, List.cons_append, List.cons_append, ← htext,
            List.nil_append]
        · rename_i hne
          cases h
          rw [String.toList_ofList]
          exact ⟨⟨hne, hword⟩, [], c :: rest, by simp, .inr ⟨c, rest, rfl, hspace, rfl⟩⟩
      · rename_i hspace
        have hc : NoSpace [c] := fun d hd =>
          List.mem_singleton.mp hd ▸ Bool.eq_false_iff.mpr hspace
        have hlonger : NoSpace (word ++ [c]) := List.forall_mem_append.mpr ⟨hword, hc⟩
        obtain ⟨hfirst, before, after, htext, hothers⟩ := ih hlonger h
        rw [List.append_assoc, List.singleton_append] at htext
        exact ⟨hfirst, before, after, htext, hothers⟩

/-- The first two words, with a space between them. -/
structure TwoWords (text : List Char) (first second : String) : Prop where
  isFirst : IsWord first.toList
  isSecond : IsWord second.toList
  apart : ∃ before gap between after, text =
    before ++ first.toList ++ (gap :: between) ++ second.toList ++ after

theorem twoWords_of_split {text first second : String} {others : List String}
    (h : split text = first :: second :: others) : TwoWords text.toList first second := by
  have hnone : NoSpace [] := fun _ hmem => absurd hmem List.not_mem_nil
  obtain ⟨hfirst, before, after, htext, hothers⟩ := splitFrom_cons hnone h
  rcases hothers with hempty | ⟨gap, tail, rfl, -, hothers⟩
  · cases hempty
  · obtain ⟨hsecond, between, behind, htail, -⟩ := splitFrom_cons hnone hothers.symm
    refine ⟨hfirst, hsecond, before, gap, between, behind, ?_⟩
    rw [List.nil_append] at htext htail
    rw [htext, htail]
    simp

theorem split_twoWords {first second : String} (hfirst : IsWord first.toList)
    (hsecond : IsWord second.toList) :
    split (String.ofList (first.toList ++ ' ' :: second.toList)) = [first, second] := by
  rw [split, String.toList_ofList, hfirst.splitFrom_space (by decide), hsecond.splitFrom_end,
    String.ofList_toList, String.ofList_toList]

/-! The ends of a text. -/

theorem stripRight_eq_self {drop : Char → Bool} {text : List Char}
    (h : ∀ c, text.getLast? = some c → drop c = false) : stripRight drop text = text := by
  rw [stripRight]
  cases hreverse : text.reverse with
  | nil => rw [List.reverse_eq_nil_iff.mp hreverse, List.dropWhile_nil, List.reverse_nil]
  | cons c rest =>
      have hlast : text.getLast? = some c := by
        rw [← List.head?_reverse, hreverse, List.head?_cons]
      rw [List.dropWhile_cons, h c hlast, if_neg Bool.false_ne_true, ← hreverse,
        List.reverse_reverse]

theorem strip_eq_self {text : List Char}
    (hfirst : ∀ c, text.head? = some c → isSpace c = false)
    (hlast : ∀ c, text.getLast? = some c → isSpace c = false) :
    strip (String.ofList text) = String.ofList text := by
  have hfront : text.dropWhile isSpace = text := by
    cases text with
    | nil => rfl
    | cons c rest => rw [List.dropWhile_cons, hfirst c rfl, if_neg Bool.false_ne_true]
  rw [strip, String.toList_ofList, hfront, stripRight_eq_self hlast]

/-- What `strip` leaves stands in the text. -/
theorem strip_infix (s : String) :
    ∃ before after, s.toList = before ++ (strip s).toList ++ after := by
  have hfront := List.takeWhile_append_dropWhile (p := isSpace) (l := s.toList)
  have hback := List.takeWhile_append_dropWhile (p := isSpace)
    (l := (s.toList.dropWhile isSpace).reverse)
  refine ⟨s.toList.takeWhile isSpace,
    ((s.toList.dropWhile isSpace).reverse.takeWhile isSpace).reverse, ?_⟩
  rw [strip, String.toList_ofList, stripRight, List.append_assoc, ← List.reverse_append, hback,
    List.reverse_reverse, hfront]

end Vnctlsd.Python.Text
