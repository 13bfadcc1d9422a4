/-
Files and references name modules alike.

The module of a file is read off the components of its path below the module root, and the
module of a reference off the segments of a text behind a marker.  Where the root ends with the
marker and the marker stands nowhere else, the two read the same names
(`classify_of_identify`): a file that is imported by its path is taken for what it is.
-/
import ModuleBoundary.Proofs.Identity.Places
import ModuleBoundary.Proofs.Reference.Markers
import ModuleBoundary.Reference.Classifier

namespace ModuleBoundary

namespace Reference

variable {markers front below : List Text} {marker : Text}

/-- If one segment alone is a marker, it decides, whatever its priority. -/
theorem afterMarker?_eq_some (hmarker : marker ∈ markers)
    (hother : ∀ n ∈ front ++ below, n ∉ markers) :
    afterMarker? markers (front ++ marker :: below) = some below := by
  obtain ⟨before, behind, hmarkers, hfirst⟩ := List.eq_append_cons_of_mem hmarker
  rw [afterMarker?_eq_some_iff]
  refine ⟨front.length, ⟨before, marker, behind, hmarkers, ?_, by simp, ?_⟩, by simp⟩
  · intro m hm hsegment
    have hmem : m ∈ markers := hmarkers ▸ List.mem_append_left _ hm
    rcases List.mem_append.mp hsegment with hsegment | hsegment
    · exact hother m (List.mem_append_left _ hsegment) hmem
    · rcases List.mem_cons.mp hsegment with heq | hsegment
      · exact hfirst (heq ▸ hm)
      · exact hother m (List.mem_append_right _ hsegment) hmem
  · intro j hj heq
    rw [List.getElem?_append_left hj] at heq
    exact hother marker (List.mem_append_left _ (List.mem_of_getElem? heq)) hmarker

/-- A target with a slash and no backslash is read by its segments as they are. -/
theorem ofMarkers_eq_found {target name : Text} {more : List Text} (hslash : '/' ∈ target)
    (hback : '\\' ∉ target)
    (hafter : afterMarker? markers (target.splitOn '/') = some (name :: more))
    (hne : name ≠ []) (hshared : isShared name = false) :
    ofMarkers markers target = .found ⟨name, pathLayer target, .path⟩ := by
  rw [ofMarkers, if_pos hslash]
  simp only [withSlashes_eq_self hback, hafter]
  rw [if_neg]
  intro h
  rcases h with h | h
  · exact hne h
  · rw [hshared] at h
    exact absurd h (by simp)

end Reference

namespace Path

variable {names : List Text}

theorem slash_not_mem_of_isEntryName {n : Text} (hn : IsEntryName (Utf8.encode n)) : '/' ∉ n :=
  fun h => hn.2.2.2 ((Utf8.mem_encode_iff (by decide)).mpr h)

theorem text_ofNames (names : List Text) :
    (ofNames (names.map Utf8.encode)).text = Text.join ['/'] names := by
  have hjoin : Text.join [slash] (names.map Utf8.encode) = Utf8.encode (Text.join ['/'] names) :=
    (Utf8.encode_join (c := '/') (by decide) names).symm
  rw [text, ofNames, hjoin, Utf8.decodeLossy_encode]

theorem splitOn_text_ofNames (hn : ∀ n ∈ names, IsEntryName (Utf8.encode n)) (hne : names ≠ []) :
    (ofNames (names.map Utf8.encode)).text.splitOn '/' = names := by
  rw [text_ofNames]
  exact List.splitOn_intercalate '/' (fun n hmem => slash_not_mem_of_isEntryName (hn n hmem)) hne

theorem slash_mem_ofNames (hn : ∀ n ∈ names, IsEntryName (Utf8.encode n))
    (hlength : 2 ≤ names.length) : '/' ∈ (ofNames (names.map Utf8.encode)).text := by
  have hne : names ≠ [] := by
    intro hnil
    rw [hnil] at hlength
    exact absurd hlength (by simp)
  refine Decidable.byContradiction fun hslash => ?_
  have hone : names = [(ofNames (names.map Utf8.encode)).text] := by
    rw [← List.splitOn_eq_singleton hslash]
    exact (splitOn_text_ofNames hn hne).symm
  rw [hone] at hlength
  exact absurd hlength (by simp)

theorem backslash_not_mem_ofNames (hback : ∀ n ∈ names, '\\' ∉ n) :
    '\\' ∉ (ofNames (names.map Utf8.encode)).text := by
  intro hmem
  rw [text_ofNames] at hmem
  rcases Text.mem_join hmem with hslash | ⟨n, hn, hmem⟩
  · exact absurd hslash (by decide)
  · exact hback n hn hmem

end Path

namespace Classifier

variable {roots : Roots} {file : Path} {front below : List Text} {marker name : Text}
  {strict : Bool}

/-- The path of a file of a module refers to that module, and to its contracts if the file is
strict.  The shared root that the classifier knows need not be the one that places the file. -/
theorem classify_of_identify (configured : Option Path)
    (hroot : roots.moduleRoot = Path.ofNames ((front ++ [marker]).map Utf8.encode))
    (hfile : file = Path.ofNames ((front ++ marker :: below).map Utf8.encode))
    (hnames : ∀ n ∈ front ++ marker :: below, IsEntryName (Utf8.encode n) ∧ '\\' ∉ n)
    (hmarker : marker ∈ Reference.defaultMarkers)
    (hother : ∀ n ∈ front ++ below, n ∉ Reference.defaultMarkers)
    (hidentity : roots.identify file = some (.inModule name strict))
    (hshared : ∀ m ∈ (ofRoot configured).sharedMarkers, ¬ m <:+: file.text) :
    ∃ layer, (ofRoot configured).classify file.text = some ⟨name, layer, .path⟩ ∧
      (strict = true → layer = .contracts) ∧
      (layer = .contracts ↔ "contracts".toList ∈ (file.text.splitOn '/').tail.dropLast) := by
  have hentry : ∀ n ∈ front ++ marker :: below, IsEntryName (Utf8.encode n) :=
    fun n hn => (hnames n hn).1
  have hsegments : file.text.splitOn '/' = front ++ marker :: below := by
    rw [hfile, Path.splitOn_text_ofNames hentry (by simp)]
  have hcomponents : file.components =
      roots.moduleRoot.components ++ (below.map Utf8.encode).map .name := by
    have hbytes : ∀ n ∈ (front ++ marker :: below).map Utf8.encode, IsEntryName n :=
      List.forall_mem_map.mpr hentry
    have hfront : ∀ n ∈ (front ++ [marker]).map Utf8.encode, IsEntryName n := by
      refine List.forall_mem_map.mpr fun n hn => hentry n ?_
      rw [List.append_cons]
      exact List.mem_append_left below hn
    rw [hroot, hfile, Path.components_ofEntryNames hbytes, Path.components_ofEntryNames hfront]
    simp
  obtain ⟨_, more, hbelow, hnot, hstrict⟩ :=
    (Roots.identify_eq_inModule_iff hcomponents).mp hidentity
  rw [Utf8.filterMap_decode?_encode] at hbelow
  have hname : name ≠ [] := by
    rintro rfl
    exact (hentry [] (by simp [hbelow])).1 rfl
  have hlength : 2 ≤ (front ++ marker :: below).length := by
    rw [hbelow, List.length_append, List.length_cons, List.length_cons]
    omega
  have hslash : '/' ∈ file.text := hfile ▸ Path.slash_mem_ofNames hentry hlength
  have htext : file.text ≠ [] := List.ne_nil_of_mem hslash
  have hback : '\\' ∉ file.text :=
    hfile ▸ Path.backslash_not_mem_ofNames fun n hn => (hnames n hn).2
  have hafter : Reference.afterMarker? Reference.defaultMarkers (file.text.splitOn '/') =
      some (name :: more) := by
    rw [hsegments, Reference.afterMarker?_eq_some hmarker hother, hbelow]
  have hfound := Reference.ofMarkers_eq_found hslash hback hafter hname hnot
  refine ⟨_, ?_, ?_, Reference.pathLayer_eq_contracts_iff⟩
  · rw [classify, if_neg]
    · show Strategy.firstAnswer? _ Strategy.defaults = _
      rw [Strategy.defaults, Strategy.firstAnswer?]
      simp only [Strategy.markers, hfound]
    · intro h
      rcases h with h | h
      · exact htext h
      · obtain ⟨m, hm, hpart⟩ := List.any_eq_true.mp h
        exact hshared m hm (Text.hasPart_iff.mp hpart)
  · intro hcontracts
    rw [hcontracts] at hstrict
    obtain ⟨last, hlast, hmore⟩ := of_decide_eq_true hstrict.symm
    rw [Reference.pathLayer_eq_contracts_iff, hsegments, Text.mem_tail_dropLast_iff]
    refine ⟨front ++ [marker, name], last, by simp, hlast, ?_⟩
    rw [hbelow, hmore]
    simp

/-- The shared contracts lie in the module root here. -/
def nestedRoots : Roots := ⟨"src/Domains", some "src/Domains/shared"⟩

def invoiceFile : Path := "src/Domains/billing/contracts/api/Invoice.php"

theorem classify_invoiceFile :
    nestedRoots.identify invoiceFile = some (.inModule "billing".toList true) ∧
      (∀ m ∈ (ofRoot nestedRoots.sharedRoot).sharedMarkers, ¬ m <:+: invoiceFile.text) ∧
      ∃ layer, (ofRoot nestedRoots.sharedRoot).classify invoiceFile.text =
          some ⟨"billing".toList, layer, .path⟩ ∧
        (true = true → layer = .contracts) ∧
        (layer = .contracts ↔ "contracts".toList ∈
          (invoiceFile.text.splitOn '/').tail.dropLast) := by
  have hidentity : nestedRoots.identify invoiceFile = some (.inModule "billing".toList true) := by
    decide +kernel
  have hshared : ∀ m ∈ (ofRoot nestedRoots.sharedRoot).sharedMarkers,
      ¬ m <:+: invoiceFile.text := by
    intro m hm hpart
    have hnone : (ofRoot nestedRoots.sharedRoot).isSharedTarget invoiceFile.text = false := by
      decide +kernel
    exact absurd (Text.hasPart_iff.mpr hpart) (List.any_eq_false.mp hnone m hm)
  refine ⟨hidentity, hshared, ?_⟩
  have hroot : nestedRoots.moduleRoot =
      Path.ofNames ((["src".toList] ++ ["Domains".toList]).map Utf8.encode) := by
    decide +kernel
  have hfile : invoiceFile = Path.ofNames ((["src".toList] ++ "Domains".toList ::
      ["billing".toList, "contracts".toList, "api".toList, "Invoice.php".toList]).map
        Utf8.encode) := by
    decide +kernel
  exact classify_of_identify nestedRoots.sharedRoot hroot hfile (by decide +kernel)
    (by decide +kernel) (by decide +kernel) hidentity hshared

end Classifier
end ModuleBoundary
