/-!
# Texts whose parts have an end

Reports and tables are written line by line, and each line has its end.  The cells of a Markdown
row have theirs, too.  `splitOn_ended` says that such parts are found again if the mark that ends
them is in none of them, and `linesOf_ended` says so of lines.
-/

namespace TransferCost
namespace Lines

/-- Parts of a text, each with a mark behind it. -/
def ended (mark : Char) (parts : List (List Char)) : List Char :=
  parts.flatMap (· ++ [mark])

/-- The lines of a text.  Behind the last line feed begins a line only if something stands there. -/
def linesOf (cs : List Char) : List (List Char) :=
  let pieces := cs.splitOn '\n'
  if pieces.getLast? = some [] then pieces.dropLast else pieces

variable {mark : Char} {parts lines : List (List Char)}

theorem ended_eq_intercalate (mark : Char) (parts : List (List Char)) :
    ended mark parts = List.intercalate [mark] (parts ++ [[]]) := by
  induction parts with
  | nil => rfl
  | cons part rest ih =>
    have hcons : ended mark (part :: rest) = part ++ [mark] ++ ended mark rest := List.flatMap_cons
    rw [hcons, ih, List.cons_append,
      List.intercalate_cons_of_ne_nil (List.append_ne_nil_of_right_ne_nil _ (by simp))]

/-- **A text is split into the parts that it was made of**, and behind the last mark is nothing. -/
theorem splitOn_ended (h : ∀ part ∈ parts, mark ∉ part) :
    (ended mark parts).splitOn mark = parts ++ [[]] := by
  rw [ended_eq_intercalate]
  refine List.splitOn_intercalate mark ?_ (List.append_ne_nil_of_right_ne_nil _ (by simp))
  intro piece hpiece
  rcases List.mem_append.mp hpiece with hpart | hlast
  · exact h piece hpart
  · rw [List.mem_singleton.mp hlast]
    exact List.not_mem_nil

/-- **Lines are read as they were written.** -/
theorem linesOf_ended (h : ∀ line ∈ lines, '\n' ∉ line) : linesOf (ended '\n' lines) = lines := by
  unfold linesOf
  dsimp only
  rw [splitOn_ended h, if_pos List.getLast?_concat, List.dropLast_concat]

/-- Readers take part by part. -/
theorem mapM_some {α β : Type} {f : α → Option β} {g : α → β} {as : List α}
    (h : ∀ a ∈ as, f a = some (g a)) : as.mapM f = some (as.map g) := by
  induction as with
  | nil => rfl
  | cons a rest ih =>
    rw [List.mapM_cons, h a List.mem_cons_self, ih fun b hb => h b (List.mem_cons_of_mem a hb)]
    rfl

end Lines
end TransferCost
