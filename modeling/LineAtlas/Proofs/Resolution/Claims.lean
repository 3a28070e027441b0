import LineAtlas.Proofs.Lists
import LineAtlas.Resolution.Ledger

/-!
# Methods and their roles

Rules move methods from the free ones to those with a role. Whatever rules ran, the methods
with roles and the free ones are together all methods, each once, so a ledger can be read off
the moves.
-/

namespace LineAtlas

/-- What no rule took is never given a role of the report. -/
theorem Role.isBound_ofLeftover (m : Method) : (Role.ofLeftover m).isBound = false := by
  unfold Role.ofLeftover
  split
  · rfl
  · split <;> rfl

/-- A ledger that lists the methods of a class file in their order, and in which the methods
with roles of the report are, one by one, those whose bodies are carried into it. -/
structure Ledger.AccountsFor (l : Ledger) (file : ClassFile) (bodies : List Body) : Prop where
  /-- One entry for every method, in order. -/
  signatures : l.entries.map Prod.fst = file.methods.map Method.signature
  /-- The carried bodies are those of the methods at certain positions, each position once,
  and these are the positions with roles of the report. -/
  positions : ∃ positions : List Nat, positions.Nodup ∧
    positions.map (fun i => file.methods[i]?.map Method.body) = bodies.map some ∧
    ∀ i, i ∈ positions ↔ ∃ entry, l.entries[i]? = some entry ∧ entry.2.isBound = true

/-- The order of the carried bodies does not matter for a ledger. -/
theorem Ledger.AccountsFor.perm {l : Ledger} {file : ClassFile} {bodies bodies' : List Body}
    (h : l.AccountsFor file bodies) (hperm : bodies.Perm bodies') :
    l.AccountsFor file bodies' := by
  obtain ⟨positions, hnodup, hbodies, hbound⟩ := h.positions
  have hmap := hperm.map some
  rw [← hbodies] at hmap
  obtain ⟨positions', hpositions, heq⟩ := Lists.exists_perm_map_eq hmap
  refine ⟨h.signatures, positions', hpositions.nodup_iff.mp hnodup, heq, fun i => ?_⟩
  rw [← hpositions.mem_iff, hbound]

/-- A method with its position and the role that it was given. -/
structure RoleGrant where
  /-- Position in the class file. -/
  index : Nat
  /-- The method. -/
  method : Method
  /-- The role. -/
  role : Role

namespace Claims

/-- A state follows from another one by giving roles to some free methods. -/
structure Grants (before after : Claims) (grants : List RoleGrant) : Prop where
  /-- The free methods were these and those that are still free. -/
  free : before.free.Perm (grants.map (fun g => (g.index, g.method)) ++ after.free)
  /-- The new roles are those that were given. -/
  roles : after.roles.Perm (grants.map (fun g => (g.index, g.role)) ++ before.roles)

/-- No rule gives no role. -/
theorem Grants.refl (c : Claims) : Grants c c [] := ⟨List.Perm.refl _, List.Perm.refl _⟩

/-- Moves one after the other make up one move. -/
theorem Grants.trans {first second third : Claims} {one two : List RoleGrant}
    (hone : Grants first second one) (htwo : Grants second third two) :
    Grants first third (one ++ two) := by
  constructor
  · refine hone.free.trans ?_
    rw [List.map_append, List.append_assoc]
    exact htwo.free.append_left _
  · refine htwo.roles.trans ((hone.roles.append_left _).trans ?_)
    rw [List.map_append, ← List.append_assoc]
    exact List.perm_append_comm.append_right _

/-- The bodies of the methods that were given roles of the report. -/
def boundBodies (grants : List RoleGrant) : List Body :=
  (grants.filter (·.role.isBound)).map (·.method.body)

/-- No moves carry no bodies. -/
@[simp]
theorem boundBodies_nil : boundBodies [] = [] := rfl

/-- Bodies are carried move by move. -/
@[simp]
theorem boundBodies_append (one two : List RoleGrant) :
    boundBodies (one ++ two) = boundBodies one ++ boundBodies two := by
  simp [boundBodies]

/-- A state follows from another one by rules that carry some bodies into the report: exactly
those of the methods that they gave a role of the report. No rule leaves a method
unaccounted. -/
def Carries (before after : Claims) (bodies : List Body) : Prop :=
  ∃ grants, Grants before after grants ∧ (boundBodies grants).Perm bodies ∧
    ∀ g ∈ grants, g.role ≠ .unaccounted

/-- No rule carries no bodies. -/
theorem Carries.refl (c : Claims) : Carries c c [] :=
  ⟨[], Grants.refl c, List.Perm.refl _, by simp⟩

/-- Rules that follow one another carry the bodies of both. -/
theorem Carries.trans {first second third : Claims} {one two : List Body}
    (hone : Carries first second one) (htwo : Carries second third two) :
    Carries first third (one ++ two) := by
  obtain ⟨grants, hgrants, hbodies, hroles⟩ := hone
  obtain ⟨grants', hgrants', hbodies', hroles'⟩ := htwo
  refine ⟨grants ++ grants', hgrants.trans hgrants', ?_, ?_⟩
  · rw [boundBodies_append]
    exact hbodies.append hbodies'
  · intro g hg
    exact (List.mem_append.mp hg).elim (hroles g) (hroles' g)

/-- The order of what is carried does not matter. -/
theorem Carries.perm {before after : Claims} {bodies bodies' : List Body}
    (h : Carries before after bodies) (hperm : bodies.Perm bodies') :
    Carries before after bodies' := by
  obtain ⟨grants, hgrants, hbodies, hroles⟩ := h
  exact ⟨grants, hgrants, hbodies.trans hperm, hroles⟩

/-- Taking the first method of a kind carries its body, when the role is one of the report. -/
theorem takeFirst?_carries {c c' : Claims} {role : Role} {kind : Method → Bool} {body : Body}
    (hrole : role ≠ .unaccounted) (htake : c.takeFirst? role kind = some (body, c')) :
    Carries c c' (if role.isBound then [body] else []) := by
  unfold takeFirst? at htake
  split at htake
  · simp at htake
  · next index method hfind =>
    simp only [Option.some.injEq, Prod.mk.injEq] at htake
    obtain ⟨rfl, rfl⟩ := htake
    refine ⟨[⟨index, method, role⟩], ⟨?_, List.Perm.refl _⟩, ?_, by simpa using hrole⟩
    · exact Lists.perm_cons_eraseP hfind
    · cases hbound : role.isBound <;> simp [boundBodies, hbound]

/-- Taking all methods of a kind carries their bodies, when the role is one of the report. -/
theorem takeAll_carries (c : Claims) {role : Role} (kind : Method → Bool)
    (hrole : role ≠ .unaccounted) :
    Carries c (c.takeAll role kind).2
      (if role.isBound then (c.takeAll role kind).1 else []) := by
  let taken := c.free.filter fun entry => kind entry.2
  refine ⟨taken.map fun entry => ⟨entry.1, entry.2, role⟩, ⟨?_, ?_⟩, ?_, ?_⟩
  · simpa [takeAll, taken, Function.comp_def] using (List.filter_append_perm _ c.free).symm
  · simp [takeAll, taken, Function.comp_def]
  · cases hbound : role.isBound <;>
      simp [boundBodies, takeAll, taken, hbound, List.filter_map, Function.comp_def]
  · intro g hg
    obtain ⟨entry, _, rfl⟩ := List.mem_map.mp hg
    exact hrole

/-- Closing gives every free method the role of a leftover. -/
theorem classifyRest_grants (c : Claims) :
    Grants c c.classifyRest
      (c.free.map fun entry => ⟨entry.1, entry.2, Role.ofLeftover entry.2⟩) := by
  constructor <;> simp [classifyRest, Function.comp_def]

/-- Methods that are left over are not carried, whatever becomes of them. -/
theorem boundBodies_leftovers (free : List (Nat × Method)) :
    boundBodies (free.map fun entry => ⟨entry.1, entry.2, Role.ofLeftover entry.2⟩) = [] := by
  simp [boundBodies, List.filter_map, Function.comp_def, Role.isBound_ofLeftover]

/-- Among roles at different positions, the role at a position is the one that it was given. -/
theorem roleAt_eq {c : Claims} {index : Nat} {role : Role}
    (hroles : (c.roles.map Prod.fst).Nodup) (hmem : (index, role) ∈ c.roles) :
    c.roleAt index = role := by
  unfold roleAt
  have hsome : (c.roles.find? (·.1 == index)).isSome = true := by
    rw [List.find?_isSome]
    exact ⟨_, hmem, by simp⟩
  obtain ⟨entry, hentry⟩ := Option.isSome_iff_exists.mp hsome
  have hindex : entry.1 = index := by simpa using List.find?_some hentry
  have heq : entry = (index, role) :=
    List.inj_on_of_nodup_map hroles (List.mem_of_find?_eq_some hentry) hmem hindex
  rw [hentry, heq]

section Ledger

variable {file : ClassFile} {c : Claims} {grants : List RoleGrant}

/-- When no method is free any more, the grants are one for every method. -/
theorem Grants.perm_methods (h : Grants (ofMethods file.methods) c grants) (hfree : c.free = []) :
    (grants.map fun g => (g.index, g.method)).Perm
      (file.methods.mapIdx fun index method => (index, method)) := by
  simpa [hfree, ofMethods] using h.free.symm

/-- No position is given a role twice. -/
theorem Grants.index_nodup (h : Grants (ofMethods file.methods) c grants)
    (hfree : c.free = []) : (grants.map RoleGrant.index).Nodup := by
  have hperm := (h.perm_methods hfree).map Prod.fst
  have hrange : (file.methods.mapIdx fun index method => (index, method)).map Prod.fst
      = List.range file.methods.length := by
    apply List.ext_getElem <;> simp
  rw [hrange, List.map_map] at hperm
  exact hperm.nodup_iff.mpr List.nodup_range

/-- Every method has a grant, and every grant is for the method at its position. -/
theorem Grants.method_iff (h : Grants (ofMethods file.methods) c grants) (hfree : c.free = [])
    (index : Nat) (method : Method) :
    file.methods[index]? = some method ↔ ∃ g ∈ grants, g.index = index ∧ g.method = method := by
  have hmem := (h.perm_methods hfree).mem_iff (a := (index, method))
  rw [List.mem_map, List.mem_mapIdx] at hmem
  rw [List.getElem?_eq_some_iff]
  simp only [Prod.mk.injEq] at hmem
  rw [hmem]
  constructor
  · rintro ⟨hlt, heq⟩
    exact ⟨index, hlt, rfl, heq⟩
  · rintro ⟨i, hlt, rfl, heq⟩
    exact ⟨hlt, heq⟩

/-- When no method is free, each has the role that it was given. -/
theorem Grants.roleAt (h : Grants (ofMethods file.methods) c grants) (hfree : c.free = [])
    {g : RoleGrant} (hg : g ∈ grants) : c.roleAt g.index = g.role := by
  have hroles := h.roles
  simp only [ofMethods, List.append_nil] at hroles
  apply roleAt_eq
  · rw [(hroles.map Prod.fst).nodup_iff, List.map_map]
    exact h.index_nodup hfree
  · exact hroles.mem_iff.mpr (List.mem_map.mpr ⟨g, hg, rfl⟩)

/-- The ledger of a state in which every method has a role accounts for the bodies of the
methods with roles of the report. -/
theorem Grants.accountsFor (h : Grants (ofMethods file.methods) c grants) (hfree : c.free = []) :
    (c.ledger file).AccountsFor file (boundBodies grants) := by
  constructor
  · apply List.ext_getElem <;> simp [ledger]
  · refine ⟨(grants.filter (·.role.isBound)).map RoleGrant.index,
      (h.index_nodup hfree).sublist (List.filter_sublist.map _), ?_, fun i => ?_⟩
    · rw [boundBodies, List.map_map, List.map_map]
      refine List.map_congr_left fun g hg => ?_
      have hmethod := (h.method_iff hfree g.index g.method).mpr
        ⟨g, List.mem_of_mem_filter hg, rfl, rfl⟩
      simp [hmethod]
    · simp only [ledger, List.getElem?_mapIdx, List.mem_map, List.mem_filter]
      constructor
      · rintro ⟨g, ⟨hg, hbound⟩, rfl⟩
        have hmethod := (h.method_iff hfree g.index g.method).mpr ⟨g, hg, rfl, rfl⟩
        exact ⟨(g.method.signature, g.role), by simp [hmethod, h.roleAt hfree hg], hbound⟩
      · rintro ⟨entry, hentry, hbound⟩
        obtain ⟨method, hmethod, rfl⟩ := Option.map_eq_some_iff.mp hentry
        obtain ⟨g, hg, rfl, rfl⟩ := (h.method_iff hfree i method).mp hmethod
        rw [h.roleAt hfree hg] at hbound
        exact ⟨g, ⟨hg, hbound⟩, rfl⟩

/-- The role of every entry of the ledger is that of a grant. -/
theorem Grants.role_mem (h : Grants (ofMethods file.methods) c grants) (hfree : c.free = [])
    {entry : Signature × Role} (hentry : entry ∈ (c.ledger file).entries) :
    ∃ g ∈ grants, g.role = entry.2 := by
  obtain ⟨i, hlt, rfl⟩ := List.mem_mapIdx.mp hentry
  obtain ⟨g, hg, rfl, _⟩ := (h.method_iff hfree i _).mp (List.getElem?_eq_getElem hlt)
  exact ⟨g, hg, (h.roleAt hfree hg).symm⟩

end Ledger

/-- Closing leads to a ledger that accounts for what was carried; under the strict policy no
method in it is unaccounted. -/
theorem close_accountsFor {file : ClassFile} {policy : AccountingPolicy} {c : Claims}
    {bodies : List Body} {l : Ledger} (hcarries : Carries (ofMethods file.methods) c bodies)
    (hclose : c.close file policy = .ok l) :
    l.AccountsFor file bodies ∧
      (policy = .strict → ∀ entry ∈ l.entries, entry.2 ≠ .unaccounted) := by
  obtain ⟨grants, hgrants, hbodies, hroles⟩ := hcarries
  have hall := hgrants.trans c.classifyRest_grants
  have hfree : c.classifyRest.free = [] := rfl
  have haccounts := hall.accountsFor hfree
  rw [boundBodies_append, boundBodies_leftovers, List.append_nil] at haccounts
  unfold close at hclose
  split at hclose
  · simp at hclose
  · next hstrict =>
    simp only [Except.ok.injEq] at hclose
    subst hclose
    refine ⟨haccounts.perm hbodies, fun hpolicy entry hentry => ?_⟩
    obtain ⟨g, hg, hrole⟩ := hall.role_mem hfree hentry
    rw [← hrole]
    rcases List.mem_append.mp hg with hg | hg
    · exact hroles g hg
    · obtain ⟨free, hmem, rfl⟩ := List.mem_map.mp hg
      intro hunaccounted
      cases hfind : c.free.find? fun entry => Role.ofLeftover entry.2 == .unaccounted with
      | none =>
        have hleftover := List.find?_eq_none.mp hfind free hmem
        simp only [beq_iff_eq] at hleftover
        exact hleftover hunaccounted
      | some entry => exact hstrict entry.1 entry.2 hpolicy hfind

end Claims

end LineAtlas
