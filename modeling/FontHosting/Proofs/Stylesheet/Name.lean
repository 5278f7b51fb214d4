import FontHosting.Proofs.Stylesheet.Key
import FontHosting.Proofs.Text.Search
import Mathlib.Data.List.DropRight

/-!
# Names are read back

A name is put together from the module of a loader, the name of the file and a query, and
`Id.read?` takes it apart again.  Two things could go wrong, and neither does:

* the first `?` has to be the one in front of the query, which needs a loader without `?`
  (`pathPart_render`, `queryPart_render`);
* the path has to give the loader back, although separators are trimmed when the path is put
  together and trimmed again when it is taken apart.  So the loader must not end with one
  (`read?_targetPath`).

The values themselves are free, since an encoded value has none of the marks of a query
(`rendered_name_is_read_back`).
-/

namespace FontHosting.Stylesheet

open Text.Percent (encode)

/-- The loader of a name is one that the name gives back: it has no `?`, and it does not end
with a separator. -/
structure Id.IsPlain (id : Id) : Prop where
  unmarked : '?' ∉ id.loader.toList
  unended : id.loader.toList.getLast? ≠ some '/'

/-- The marks that mean something in a query. -/
def queryMarks : List Char := ['?', '&', '=', '#', '+', ' ']

/-- A value contributes none of the marks of a query. -/
theorem notMem_queryMarks {value : List Char} {c : Char} (h : c ∈ encode value) :
    c ∉ queryMarks := by
  have hmarks : queryMarks.Forall fun mark =>
      Text.Percent.isUnreserved mark = false ∧ mark ≠ '%' := by
    decide
  intro hmark
  obtain ⟨hreserved, hpercent⟩ := List.forall_iff_forall_mem.mp hmarks c hmark
  exact Text.Percent.notMem_encode hreserved hpercent value h

/-- A name as it is written. -/
theorem Id.render_eq (id : Id) :
    id.render = id.targetPath ++
      ("?path=".toList ++ encode id.query.path.toList ++
        "&import=".toList ++ encode id.query.function.toList ++
        "&arguments=".toList ++ encode id.query.arguments.toList ++
        "&variableName=".toList ++ encode id.query.variableName.toList) := by
  simp [Id.render, Query.render, Query.pairs, Text.join, renderField]

/-! ## The loader -/

/-- The path without the name of the file is the loader, up to the separator between them. -/
theorem Id.targetPath_eq_append {id : Id} (hended : id.loader.toList.getLast? ≠ some '/') :
    ∃ directory, id.targetPath = directory ++ fileName ∧
      Text.dropEndWhile (· == '/') directory = id.loader.toList := by
  have hkept : Text.dropEndWhile (· == '/') id.loader.toList = id.loader.toList := by
    refine List.rdropWhile_eq_self_iff.mpr fun hne hlast => hended ?_
    rw [List.getLast?_eq_getLast_of_ne_nil hne, beq_iff_eq.mp hlast]
  unfold Id.targetPath joinPath
  split
  · rename_i hempty
    refine ⟨[], rfl, ?_⟩
    rw [List.isEmpty_iff.mp hempty]
    rfl
  · refine ⟨id.loader.toList ++ ['/'], ?_, ?_⟩
    · rw [hkept]
      simp [show fileName.dropWhile (· == '/') = fileName from by decide]
    · exact (List.rdropWhile_concat_pos _ _ _ rfl).trans hkept

theorem before?_append (text ending : List Char) :
    Text.before? ending (text ++ ending) = some text := by
  unfold Text.before?
  rw [if_pos (List.isSuffixOf_iff_suffix.mpr (List.suffix_append text ending))]
  simp

section
variable {id : Id}

/-- **A rendered name is read back.** -/
theorem Id.read?_render (hplain : id.IsPlain) : Id.read? id.render = some id := by
  obtain ⟨directory, hpath, hdirectory⟩ := Id.targetPath_eq_append hplain.unended
  unfold Id.read?
  rw [pathPart_render hplain.unmarked, queryPart_render hplain.unmarked, hpath, before?_append,
    Stylesheet.read?_render]
  simp [hdirectory]

theorem count_mark_render (hmark : '?' ∉ id.loader.toList) : id.render.count '?' = 1 := by
  have hpath : id.targetPath.count '?' = 0 :=
    List.count_eq_zero_of_not_mem (notMem_targetPath_of_loader hmark)
  have hvalue : ∀ value, (encode value).count '?' = 0 := fun value =>
    List.count_eq_zero_of_not_mem fun h => notMem_queryMarks h List.mem_cons_self
  rw [Id.render_eq]
  simp [List.count_append, hpath, hvalue]

/-- **Names are written so that they can be read.**  If the loader has no `?` and does not end
with a separator, the name gives loader and query back whatever the four values are; it has a
single `?`; between the marks that are written out it has only the encoded values, which are
plain ASCII without any of the marks of a query; and no other such name is written the same
way. -/
theorem rendered_name_is_read_back (hplain : id.IsPlain) :
    Id.read? id.render = some id ∧
    id.render.count '?' = 1 ∧
    id.render = id.targetPath ++
      ("?path=".toList ++ encode id.query.path.toList ++
        "&import=".toList ++ encode id.query.function.toList ++
        "&arguments=".toList ++ encode id.query.arguments.toList ++
        "&variableName=".toList ++ encode id.query.variableName.toList) ∧
    (∀ value c, c ∈ encode value → c.toNat < 0x80 ∧ c ∉ ['?', '&', '=', '#', '+', ' ']) ∧
    ∀ other : Id, other.IsPlain → other.render = id.render → other = id := by
  have hread := Id.read?_render hplain
  refine ⟨hread, count_mark_render hplain.unmarked, id.render_eq, ?_, ?_⟩
  · intro value c hc
    exact ⟨Text.Percent.toNat_lt_of_mem_encode hc, notMem_queryMarks hc⟩
  · intro other hother hsame
    rw [← hsame, Id.read?_render hother] at hread
    exact Option.some_inj.mp hread

end

/-- A name with marks in every value, and a loader outside the project. -/
def oddName : Id :=
  ⟨"//fonts/../next-font/google",
    ⟨"a b+c/é.tsx", "?import=", "[\x7b\"a&b\":\"#=%3F\"\x7d]", "&path=x"⟩⟩

theorem oddName_is_read_back :
    oddName.IsPlain ∧ Id.read? oddName.render = some oddName ∧ oddName.render.count '?' = 1 := by
  have hplain : oddName.IsPlain := ⟨by decide, by decide⟩
  have hback := rendered_name_is_read_back hplain
  exact ⟨hplain, hback.1, hback.2.1⟩

end FontHosting.Stylesheet
