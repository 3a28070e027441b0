import LineAtlas.Proofs.Name.Local
import LineAtlas.Proofs.Tree.LocalFunctions

/-!
# The function around a local one

The name of a local function tells which key the function around it has: a lambda goes by the name
in front of its number, if that is a key, and everything else by the longest key that the name
continues. There is at most one such key, whatever order the keys come in. Of several functions
with the key one is chosen that encloses the lines of the local function, if there is any.
-/

namespace LineAtlas

namespace LocalKeys

/-- A name is a key, a dollar and a rest that is not empty. -/
def Continues (key rest name : String) : Prop := name = key ++ "$" ++ rest ∧ rest ≠ ""

/-- The longest of some keys that a name continues. -/
structure IsLongest (names : List String) (name key : String) : Prop where
  /-- It is one of the keys. -/
  mem : key ∈ names
  /-- The name continues it. -/
  continues : ∃ rest, Continues key rest name
  /-- No other key that the name continues is longer. -/
  longest : ∀ other ∈ names, (∃ rest, Continues other rest name) → other.length ≤ key.length

/-- The key, among some, of the function around a local one: for a lambda the name in front of its
number, if that is a key, and else the longest key that the name continues. -/
def IsOuterKey (names : List String) (name key : String) : Prop :=
  (LocalName.IsLambdaIn name key ∧ key ∈ names) ∨
    ((∀ base ∈ names, ¬ LocalName.IsLambdaIn name base) ∧ IsLongest names name key)

/-- What is left of a name behind a key is the rest with which it continues. -/
theorem rest?_eq_some_iff {key name rest : String} :
    rest? key name = some rest ↔ Continues key rest name := by
  rw [rest?, Option.filter_eq_some_iff, Text.dropHead?_eq_some_iff, Continues]
  simp

/-- Something is left of a name behind a key exactly if the name continues it. -/
theorem rest?_isSome_iff {key name : String} :
    (rest? key name).isSome = true ↔ ∃ rest, Continues key rest name := by
  simp only [Option.isSome_iff_exists, rest?_eq_some_iff]

/-- A key takes fewer bytes than a name that continues it. -/
theorem Continues.size_lt {key rest name : String} (h : Continues key rest name) :
    key.utf8ByteSize < name.utf8ByteSize := by
  rw [h.1, String.utf8ByteSize_append, String.utf8ByteSize_append]
  have hdollar : "$".utf8ByteSize = 1 := by decide
  omega

/-- The name of a lambda is longer than that of its function. -/
theorem size_lt_of_isLambdaIn {name base : String} (h : LocalName.IsLambdaIn name base) :
    base.utf8ByteSize < name.utf8ByteSize := by
  obtain ⟨number, rfl, -⟩ := h
  rw [String.utf8ByteSize_append, String.utf8ByteSize_append]
  have hword : "$lambda$".utf8ByteSize = 8 := by decide
  omega

/-- Of two keys that a name continues, one is the beginning of the other. -/
theorem Continues.prefix_or_prefix {one two rest rest' name : String}
    (hone : Continues one rest name) (htwo : Continues two rest' name) :
    one.toList <+: two.toList ∨ two.toList <+: one.toList := by
  have heq : one.toList ++ ("$" ++ rest).toList = two.toList ++ ("$" ++ rest').toList := by
    rw [← String.toList_append, ← String.toList_append, ← String.append_assoc,
      ← String.append_assoc, ← hone.1, ← htwo.1]
  refine List.prefix_or_prefix_of_prefix (List.prefix_append _ ("$" ++ rest).toList) ?_
  rw [heq]
  exact List.prefix_append _ _

/-- So of two such keys the one with more bytes is longer. -/
theorem Continues.length_le {one two rest rest' name : String}
    (hone : Continues one rest name) (htwo : Continues two rest' name)
    (hsize : one.utf8ByteSize ≤ two.utf8ByteSize) : one.length ≤ two.length := by
  rcases hone.prefix_or_prefix htwo with hprefix | ⟨more, hmore⟩
  · exact hprefix.length_le
  · have heq : two ++ String.ofList more = one := by
      rw [← String.toList_inj, String.toList_append, String.toList_ofList, hmore]
    rw [← heq, String.utf8ByteSize_append] at hsize
    have hempty : String.ofList more = "" := String.utf8ByteSize_eq_zero_iff.mp (by omega)
    rw [← heq, hempty, String.append_empty]

/-- And two such keys of the same length are the same. -/
theorem Continues.eq_of_length_eq {one two rest rest' name : String}
    (hone : Continues one rest name) (htwo : Continues two rest' name)
    (hlength : one.length = two.length) : one = two := by
  rw [← String.toList_inj]
  rcases hone.prefix_or_prefix htwo with hbegins | hbegins
  · exact hbegins.eq_of_length hlength
  · exact (hbegins.eq_of_length hlength.symm).symm

/-- There is only one longest key for a name. -/
theorem IsLongest.eq {names : List String} {name one two : String} (hone : IsLongest names name one)
    (htwo : IsLongest names name two) : one = two := by
  obtain ⟨rest, hcontinues⟩ := hone.continues
  obtain ⟨rest', hcontinues'⟩ := htwo.continues
  refine hcontinues.eq_of_length_eq hcontinues' (Nat.le_antisymm ?_ ?_)
  · exact htwo.longest one hone.mem ⟨rest, hcontinues⟩
  · exact hone.longest two htwo.mem ⟨rest', hcontinues'⟩

/-- The key of the function around a local one is determined by the set of keys. -/
theorem IsOuterKey.eq {names : List String} {name one two : String}
    (hone : IsOuterKey names name one) (htwo : IsOuterKey names name two) : one = two := by
  rcases hone with ⟨hlambda, hmem⟩ | ⟨hnone, hlongest⟩ <;>
    rcases htwo with ⟨hlambda', hmem'⟩ | ⟨hnone', hlongest'⟩
  · exact hlambda.eq hlambda'
  · exact absurd hlambda (hnone' one hmem)
  · exact absurd hlambda' (hnone two hmem')
  · exact hlongest.eq hlongest'

/-- There is only one outer key for a name. -/
theorem IsOuterKey.iff_eq {names : List String} {name key : String}
    (h : IsOuterKey names name key) (other : String) :
    IsOuterKey names name other ↔ other = key :=
  ⟨fun hother => hother.eq h, fun heq => heq ▸ h⟩

/-- The key of the function around a local one takes fewer bytes than its name. -/
theorem IsOuterKey.size_lt {names : List String} {name key : String}
    (h : IsOuterKey names name key) : key.utf8ByteSize < name.utf8ByteSize := by
  rcases h with ⟨hlambda, -⟩ | ⟨-, hlongest⟩
  · exact size_lt_of_isLambdaIn hlambda
  · obtain ⟨rest, hcontinues⟩ := hlongest.continues
    exact hcontinues.size_lt

/-- Only the set of keys matters. -/
theorem IsOuterKey.congr {names names' : List String} {name key : String}
    (h : ∀ other, other ∈ names ↔ other ∈ names') :
    IsOuterKey names name key ↔ IsOuterKey names' name key := by
  have hlongest : IsLongest names name key ↔ IsLongest names' name key := by
    constructor
    · exact fun hkey => ⟨(h key).mp hkey.mem, hkey.continues,
        fun other hother => hkey.longest other ((h other).mpr hother)⟩
    · exact fun hkey => ⟨(h key).mpr hkey.mem, hkey.continues,
        fun other hother => hkey.longest other ((h other).mp hother)⟩
  simp only [IsOuterKey, h, hlongest]

/-- Keys that take no fewer bytes than a name play no part for it. -/
theorem IsOuterKey.append {names more : List String} {name key : String}
    (h : IsOuterKey names name key)
    (hmore : ∀ other ∈ more, name.utf8ByteSize ≤ other.utf8ByteSize) :
    IsOuterKey (names ++ more) name key := by
  rcases h with ⟨hlambda, hmem⟩ | ⟨hnone, hlongest⟩
  · exact Or.inl ⟨hlambda, List.mem_append_left _ hmem⟩
  · refine Or.inr ⟨fun base hbase hlambda => ?_, List.mem_append_left _ hlongest.mem,
      hlongest.continues, fun other hother hcontinues => ?_⟩
    · rcases List.mem_append.mp hbase with hbase | hbase
      · exact hnone base hbase hlambda
      · exact absurd (hmore base hbase) (size_lt_of_isLambdaIn hlambda).not_ge
    · rcases List.mem_append.mp hother with hother | hother
      · exact hlongest.longest other hother hcontinues
      · obtain ⟨rest, hrest⟩ := hcontinues
        exact absurd (hmore other hother) hrest.size_lt.not_ge

/-- The key of the function around a local one is one of the keys, and the name continues it. -/
theorem IsOuterKey.exists_continues {names : List String} {name key : String}
    (h : IsOuterKey names name key) : key ∈ names ∧ ∃ rest, Continues key rest name := by
  rcases h with ⟨⟨number, rfl, -⟩, hmem⟩ | ⟨-, hlongest⟩
  · refine ⟨hmem, "lambda$" ++ number, ?_, by simp⟩
    rw [show "$lambda$" = "$" ++ "lambda$" by decide]
    simp only [String.append_assoc]
  · exact ⟨hlongest.mem, hlongest.continues⟩

/-- No key, among some, is that of a function around a local one. -/
def IsStray (names : List String) (name : String) : Prop := ∀ key, ¬ IsOuterKey names name key

/-- Whether a name is stray depends only on which keys there are. -/
theorem IsStray.congr {names names' : List String} {name : String}
    (h : ∀ other, other ∈ names ↔ other ∈ names') : IsStray names name ↔ IsStray names' name :=
  forall_congr' fun _ => not_congr (IsOuterKey.congr h)

/-- The longer of two keys is at least as long as either. -/
theorem size_le_longer (first second : String) :
    first.utf8ByteSize ≤ (longer first second).utf8ByteSize ∧
      second.utf8ByteSize ≤ (longer first second).utf8ByteSize := by
  unfold longer
  split <;> omega

/-- The longest of some keys is at least as long as each. -/
theorem size_le_foldl_longer (first : String) (others : List String) :
    ∀ key ∈ first :: others, key.utf8ByteSize ≤ (others.foldl longer first).utf8ByteSize := by
  induction others generalizing first with
  | nil => simp
  | cons next others ih =>
    have hlonger := size_le_longer first next
    have hfirst := ih (longer first next) (longer first next) List.mem_cons_self
    intro key hkey
    rcases List.mem_cons.mp hkey with rfl | hkey
    · exact hlonger.1.trans hfirst
    · rcases List.mem_cons.mp hkey with rfl | hkey
      · exact hlonger.2.trans hfirst
      · exact ih (longer first next) key (List.mem_cons_of_mem _ hkey)

/-- The key that is found for a name is the longest one that it continues. -/
theorem longestKey?_isLongest {keys : LocalKeys} {name key : String}
    (h : keys.longestKey? name = some key) : IsLongest (keys.map Prod.fst) name key := by
  unfold longestKey? at h
  split at h
  · simp at h
  · next first others hfound =>
    obtain rfl := Option.some.inj h
    have hfits : others.foldl longer first ∈ (keys.map Prod.fst).filter fun key =>
        (rest? key name).isSome := by
      rw [hfound]
      exact foldl_longer_mem first others
    obtain ⟨rest, hrest⟩ := rest?_isSome_iff.mp (List.mem_filter.mp hfits).2
    refine ⟨(List.mem_filter.mp hfits).1, ⟨rest, hrest⟩, fun other hother hcontinues => ?_⟩
    obtain ⟨rest', hrest'⟩ := hcontinues
    refine hrest'.length_le hrest (size_le_foldl_longer first others other ?_)
    rw [← hfound]
    exact List.mem_filter.mpr ⟨hother, rest?_isSome_iff.mpr ⟨rest', hrest'⟩⟩

/-- The key that is found for a local function is the one of the function around it. -/
theorem outerKey?_isOuterKey {keys : LocalKeys} {name key : String}
    (h : keys.outerKey? name = some key) : IsOuterKey (keys.map Prod.fst) name key := by
  have hany (base : String) : (keys.any fun entry => entry.1 == base) = true
      ↔ base ∈ keys.map Prod.fst := by
    simp
  unfold outerKey? at h
  split at h
  · next base hbase =>
    obtain rfl := Option.some.inj h
    obtain ⟨hlambda, hmem⟩ := Option.filter_eq_some_iff.mp hbase
    exact Or.inl ⟨LocalName.lambdaBase?_eq_some_iff.mp hlambda, (hany base).mp hmem⟩
  · next hnone =>
    refine Or.inr ⟨fun base hbase hlambda => ?_, longestKey?_isLongest h⟩
    rw [LocalName.lambdaBase?_eq_some_iff.mpr hlambda] at hnone
    exact Option.filter_eq_none_iff.mp hnone base rfl ((hany base).mpr hbase)

/-- If a name continues some key, there is one of the function around it. -/
theorem Fits.not_isStray {names : List String} {name : String} (h : Fits names name) :
    ¬ IsStray names name := by
  intro hstray
  have hnames : (names.map fun key => (key, (0 : FunctionId))).map Prod.fst = names := by
    rw [List.map_map]
    exact List.map_id names
  obtain ⟨key, -, hkey⟩ := exists_outerKey? (hnames.symm ▸ h)
  exact hstray key (hnames ▸ outerKey?_isOuterKey hkey)

end LocalKeys

/-- Some lines lie within others exactly if both have a first and a last line, in this order. -/
theorem LineSet.within_iff {inner outer : LineSet} : inner.within outer = true ↔
    ∃ low high outerLow outerHigh, inner.first? = some low ∧ inner.last? = some high ∧
      outer.first? = some outerLow ∧ outer.last? = some outerHigh ∧ outerLow ≤ low ∧
      high ≤ outerHigh := by
  unfold within
  split
  · next low high outerLow outerHigh hlow hhigh houterLow houterHigh =>
    rw [Bool.and_eq_true, decide_eq_true_eq, decide_eq_true_eq]
    constructor
    · exact fun h => ⟨low, high, outerLow, outerHigh, hlow, hhigh, houterLow, houterHigh, h⟩
    · rintro ⟨_, _, _, _, hone, htwo, hthree, hfour, h⟩
      simp_all
  · next hnone =>
    constructor
    · intro h
      simp at h
    · rintro ⟨low, high, outerLow, outerHigh, hlow, hhigh, houterLow, houterHigh, -⟩
      exact absurd houterHigh (hnone low high outerLow outerHigh hlow hhigh houterLow)

/-- Lines with a last one have a first one. -/
theorem LineSet.exists_first?_of_last? {s : LineSet} {high : LineNumber}
    (h : s.last? = some high) : ∃ low, s.first? = some low := by
  cases hlist : s.toList with
  | nil => simp [last?, hlist] at h
  | cons low rest => exact ⟨low, by simp [first?, hlist]⟩

/-- Where a candidate encloses some lines, the chosen one does. -/
theorem LocalKeys.enclosing?_within {candidates : List (FunctionId × LineSet)} {lines : LineSet}
    {f : FunctionId} (h : enclosing? candidates lines = some f)
    {other : FunctionId × LineSet} (hother : other ∈ candidates)
    (hwithin : lines.within other.2 = true) :
    ∃ item ∈ candidates, item.1 = f ∧ lines.within item.2 = true := by
  obtain ⟨low, high, outerLow, outerHigh, hlow, hhigh, houterLow, houterHigh, hfirst, hlast⟩ :=
    LineSet.within_iff.mp hwithin
  simp only [enclosing?, hlow, hhigh] at h
  -- The candidate itself begins early enough and ends late enough, so that one that does is found.
  have hfound : ((candidates.filter fun c => c.2.last?.any (high ≤ ·)).find? fun c =>
      c.2.first?.getD 0 ≤ low).isSome = true := by
    rw [List.find?_isSome]
    exact ⟨other, List.mem_filter.mpr ⟨hother, by simpa [houterHigh] using hlast⟩,
      by simpa [houterLow] using hfirst⟩
  obtain ⟨item, hitem⟩ := Option.isSome_iff_exists.mp hfound
  rw [hitem] at h
  obtain ⟨hmem, hends⟩ := List.mem_filter.mp (List.mem_of_find?_eq_some hitem)
  obtain ⟨itemHigh, hitemHigh, hends⟩ := Option.any_eq_true _ _ |>.mp hends
  obtain ⟨itemLow, hitemLow⟩ := LineSet.exists_first?_of_last? hitemHigh
  have hbegins := List.find?_some hitem
  rw [hitemLow] at hbegins
  refine ⟨item, hmem, Option.some.inj h, LineSet.within_iff.mpr ?_⟩
  exact ⟨low, high, itemLow, itemHigh, hlow, hhigh, hitemLow, hitemHigh, by simpa using hbegins,
    by simpa using hends⟩

/-- The function that is found around a local one has the key of the function around it, and
encloses its lines if any function with the key does. -/
theorem Draft.outer?_isOuterKey {d : Draft} {keys : LocalKeys} {body : Body} {key : String}
    {f : FunctionId} (h : d.outer? keys body = some (key, f)) :
    LocalKeys.IsOuterKey (keys.map Prod.fst) body.signature.name key ∧ (key, f) ∈ keys ∧
      ∃ node, d.tree.function? f = some node ∧
        ∀ other node', (key, other) ∈ keys → d.tree.function? other = some node' →
          body.lines.within node'.body.lines = true →
            body.lines.within node.body.lines = true := by
  unfold outer? at h
  obtain ⟨k, hk, h⟩ := Option.bind_eq_some_iff.mp h
  obtain ⟨g, hg, h⟩ := Option.bind_eq_some_iff.mp h
  obtain ⟨rfl, rfl⟩ := Prod.mk.inj (Option.some.inj h)
  have hcandidate (item : FunctionId × LineSet) : item ∈ (keys.candidates k).filterMap (fun id =>
        (d.tree.function? id).map fun node => (id, node.body.lines)) ↔
      (k, item.1) ∈ keys ∧
        ∃ node, d.tree.function? item.1 = some node ∧ node.body.lines = item.2 := by
    rw [List.mem_filterMap]
    constructor
    · rintro ⟨id, hid, hitem⟩
      obtain ⟨node, hnode, rfl⟩ := Option.map_eq_some_iff.mp hitem
      obtain ⟨entry, hentry, rfl⟩ := List.mem_map.mp hid
      obtain ⟨hmem, hkey⟩ := List.mem_filter.mp hentry
      rw [← eq_of_beq hkey]
      exact ⟨hmem, node, hnode, rfl⟩
    · rintro ⟨hmem, node, hnode, hlines⟩
      refine ⟨item.1, List.mem_map.mpr ⟨(k, item.1), List.mem_filter.mpr ⟨hmem, by simp⟩, rfl⟩, ?_⟩
      rw [hnode, Option.map_some, hlines]
  obtain ⟨item, hitem, rfl⟩ := List.mem_map.mp (LocalKeys.enclosing?_mem hg)
  obtain ⟨hmem, node, hnode, -⟩ := (hcandidate item).mp hitem
  refine ⟨LocalKeys.outerKey?_isOuterKey hk, hmem, node, hnode,
    fun other node' hother hnode' hwithin => ?_⟩
  obtain ⟨chosen, hchosen, hid, hwithin⟩ := LocalKeys.enclosing?_within hg
    ((hcandidate (other, node'.body.lines)).mpr ⟨hother, node', hnode', rfl⟩) hwithin
  obtain ⟨-, node'', hnode'', hlines⟩ := (hcandidate chosen).mp hchosen
  rw [hid, hnode] at hnode''
  rw [Option.some.inj hnode'', hlines]
  exact hwithin

end LineAtlas
