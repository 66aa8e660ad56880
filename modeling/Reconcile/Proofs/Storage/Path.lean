import Reconcile.Storage.Path

/-! What joining a folder and a file name makes of a path: the names of the folder and then the
file's own. An extension is changed on the last name alone. -/

namespace Reconcile.Storage.Path

variable {dir file : String}

theorem pieces_ne_nil (cs : List Char) : pieces cs ≠ [] := by
  cases cs with
  | nil => simp [pieces]
  | cons c cs =>
    rw [pieces]
    split
    · simp
    · split <;> simp

theorem pieces_append_slash (xs ys : List Char) :
    pieces (xs ++ '/' :: ys) = pieces xs ++ pieces ys := by
  induction xs with
  | nil => simp [pieces]
  | cons c xs ih =>
    rw [List.cons_append, pieces, pieces, ih]
    split
    · rfl
    · obtain ⟨piece, rest, split⟩ := List.exists_cons_of_ne_nil (pieces_ne_nil xs)
      rw [split]
      rfl

theorem pieces_of_not_mem {cs : List Char} (plain : '/' ∉ cs) : pieces cs = [cs] := by
  induction cs with
  | nil => rfl
  | cons c cs ih =>
    simp only [List.mem_cons, not_or] at plain
    rw [pieces, if_neg (Ne.symm plain.1), ih plain.2]

def leading (dir : String) : List Char :=
  if dir.isEmpty || dir.endsWith '/' then dir.toList else dir.toList ++ ['/']

theorem toList_join (plain : '/' ∉ file.toList) :
    (join dir file).toList = leading dir ++ file.toList := by
  have relative : file.startsWith '/' = false := by
    rw [String.startsWith_char_eq_head?, beq_eq_false_iff_ne]
    exact fun first => plain (List.mem_of_head? first)
  rw [join, if_neg (by simp [relative]), leading]
  split <;> simp

theorem join_eq_append (plain : '/' ∉ file.toList) :
    join dir file = String.ofList (leading dir) ++ file := by
  apply String.toList_injective
  rw [toList_join plain, String.toList_append, String.toList_ofList]

theorem leading_cases (dir : String) : dir.toList = [] ∧ leading dir = [] ∨
    ∃ cs, leading dir = cs ++ ['/'] ∧ (dir.toList = cs ++ ['/'] ∨ dir.toList = cs) := by
  rw [leading]
  split
  · rename_i closed
    rcases Bool.or_eq_true_iff.1 closed with empty | slash
    · have none : dir.toList = [] := by simpa using empty
      exact .inl ⟨none, none⟩
    · rw [String.endsWith_char_eq_getLast?, beq_iff_eq] at slash
      obtain ⟨cs, whole⟩ := List.getLast?_eq_some_iff.1 slash
      exact .inr ⟨cs, whole, .inl whole⟩
  · exact .inr ⟨dir.toList, rfl, .inr rfl⟩

theorem names_join (plain : '/' ∉ file.toList) (named : file ≠ "") (other : file ≠ ".") :
    names (join dir file) = names dir ++ [file] := by
  have last : (([file.toList].map String.ofList).filter fun name => name != "" && name != ".") =
      [file] := by
    simp [named, other]
  simp only [names, toList_join plain]
  rcases leading_cases dir with ⟨empty, none⟩ | ⟨cs, leads, whole | whole⟩
  · simp only [empty, none, List.nil_append, pieces_of_not_mem plain, last]
    rfl
  · rw [leads, whole, List.append_assoc, List.singleton_append, pieces_append_slash,
      pieces_append_slash, pieces_of_not_mem plain, List.map_append, List.filter_append, last]
    simp [pieces]
  · rw [leads, whole, List.append_assoc, List.singleton_append, pieces_append_slash,
      pieces_of_not_mem plain, List.map_append, List.filter_append, last]

theorem mem_of_mem_stem {c : Char} {name : List Char} (member : c ∈ stem name) : c ∈ name := by
  rw [stem] at member
  split at member
  · rename_i kept
    have behind := List.dropWhile_suffix (l := name.reverse) (· ≠ '.')
    rw [kept] at behind
    exact List.mem_reverse.1 (behind.subset (List.mem_cons_of_mem _ (List.mem_reverse.1 member)))
  · exact member

def renamed (file extension : String) : String :=
  if stem file.toList = ['.'] then ".."
  else String.ofList (stem file.toList ++ '.' :: extension.toList)

theorem withExtension_join {extension : String} (plain : '/' ∉ file.toList)
    (plain' : '/' ∉ (renamed file extension).toList) :
    withExtension (join dir file) extension = join dir (renamed file extension) := by
  have behind : (file.toList.reverse ++ (leading dir).reverse).takeWhile (· ≠ '/') =
        file.toList.reverse ∧
      (file.toList.reverse ++ (leading dir).reverse).dropWhile (· ≠ '/') =
        (leading dir).reverse := by
    have all : ∀ c ∈ file.toList.reverse, (decide (c ≠ '/')) = true := by
      intro c h
      have : c ≠ '/' := by
        rintro rfl
        exact plain (List.mem_reverse.1 h)
      simpa using this
    rw [List.takeWhile_append_of_pos all, List.dropWhile_append_of_pos all]
    rcases leading_cases dir with ⟨-, none⟩ | ⟨cs, leads, -⟩
    · simp [none]
    · simp [leads]
  refine String.toList_injective ?_
  rw [toList_join plain', withExtension, toList_join plain, List.reverse_append]
  rw [behind.1, behind.2, List.reverse_reverse, List.reverse_reverse, renamed]
  split
  · rename_i dot
    simp [dot]
  · rename_i other
    simp [if_neg other]

end Reconcile.Storage.Path
