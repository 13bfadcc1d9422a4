/-
Spellings of one path.

Slashes may be doubled, a `.` may stand between two of them, and a slash may end the path.  None
of this shows in the components: what it adds to the segments is silent, and it is never in front
of the first of them (`Respelled.components_eq`).
-/
import Mathlib.Logic.Relation
import ModuleBoundary.Proofs.Path.Joining

namespace ModuleBoundary
namespace Path

variable {p q : Path}

/-- The second path is spelled as the first one, with one slash more or with a `.` between two. -/
inductive RespelledOnce : Path → Path → Prop
  | slash (front behind : Bytes) :
      RespelledOnce ⟨front ++ slash :: behind⟩ ⟨front ++ slash :: slash :: behind⟩
  | here (front behind : Bytes) :
      RespelledOnce ⟨front ++ slash :: behind⟩ ⟨front ++ slash :: dot :: slash :: behind⟩
  | slashAtEnd {bytes : Bytes} (h : bytes ≠ []) : RespelledOnce ⟨bytes⟩ ⟨bytes ++ [slash]⟩

def Respelled : Path → Path → Prop := Relation.EqvGen RespelledOnce

theorem components_congr (habs : p.isAbsolute = q.isAbsolute)
    (hhead : p.segments.head? = q.segments.head?) (hloud : p.loud = q.loud) :
    p.components = q.components := by
  have hlead : p.lead = q.lead := by
    rw [lead, lead, habs, hhead]
  rw [components_eq, components_eq, hlead, hloud]

/-- A silent segment behind a slash is no component. -/
theorem components_insert {silent : Bytes} (hslash : slash ∉ silent)
    (hsilent : isSilent silent = true) (front behind : Bytes) :
    (Path.mk (front ++ slash :: (silent ++ slash :: behind))).components =
      (Path.mk (front ++ slash :: behind)).components := by
  have hcut : (front ++ slash :: behind).splitOn slash =
      front.splitOn slash ++ behind.splitOn slash := List.splitOn_append_cons_self front behind
  have hcut' : (front ++ slash :: (silent ++ slash :: behind)).splitOn slash =
      front.splitOn slash ++ silent :: behind.splitOn slash := by
    rw [List.splitOn_append_cons_self, List.splitOn_append_cons_self,
      List.splitOn_eq_singleton hslash]
    rfl
  obtain ⟨first, rest, hfirst⟩ := List.exists_cons_of_ne_nil (List.splitOn_ne_nil slash front)
  refine components_congr ?_ ?_ ?_
  · cases front <;> rfl
  · rw [segments, segments, hcut, hcut', hfirst]
    rfl
  · rw [loud, loud, segments, segments, hcut, hcut', List.filter_append, List.filter_append,
      List.filter_cons_of_neg (by simp [hsilent])]

/-- A slash at the end opens a segment that is silent. -/
theorem components_concat {bytes : Bytes} (h : bytes ≠ []) :
    (Path.mk (bytes ++ [slash])).components = (Path.mk bytes).components := by
  obtain ⟨first, rest, hfirst⟩ := List.exists_cons_of_ne_nil (List.splitOn_ne_nil slash bytes)
  refine components_congr ?_ ?_ ?_
  · obtain ⟨c, rest, hcons⟩ := List.exists_cons_of_ne_nil h
    rw [hcons]
    rfl
  · rw [segments_of_slash, segments, hfirst]
    rfl
  · rw [loud, loud, segments_of_slash, segments, List.filter_append,
      List.filter_cons_of_neg (by decide), List.filter_nil, List.append_nil]

theorem RespelledOnce.components_eq (h : RespelledOnce p q) : q.components = p.components := by
  cases h with
  | slash front behind => exact components_insert List.not_mem_nil rfl front behind
  | here front behind =>
    have hdot : ModuleBoundary.slash ∉ [dot] := by decide
    exact components_insert hdot rfl front behind
  | slashAtEnd h => exact components_concat h

theorem Respelled.components_eq (h : Respelled p q) : q.components = p.components := by
  induction h with
  | rel p q h => exact h.components_eq
  | refl p => rfl
  | symm p q _ ih => exact ih.symm
  | trans p q r _ _ ih ih' => exact ih'.trans ih

end Path
end ModuleBoundary
