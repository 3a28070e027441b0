import LineAtlas.Proofs.Resolution.Order
import LineAtlas.Proofs.Tree.Composed
import LineAtlas.Proofs.Tree.HolderListing

/-!
# The order in a tree

In the tree of a source file every class lists the members of its class file in order: declared
members in the order of the metadata, implicit ones in the order of the class file, and bodies of
interface methods in the order of the interface.
-/

namespace LineAtlas

/-- The members of a class that comes from one of some class files are in order. -/
inductive Members.OrderedIn (files : List ClassFile) : (jvmName : String) → Members → Prop
  /-- A class with metadata about its members. -/
  | declared {file : ClassFile} {m : Members} (hfile : file ∈ files) (h : m.OrderedAs file) :
    OrderedIn files file.name m
  /-- A lambda has one function. -/
  | lambda {file : ClassFile} {method : Method} (hfile : file ∈ files)
    (hmethod : method ∈ file.methods) :
    OrderedIn files file.name
      { functions := [⟨method.signature.name, none, false, method.body, none⟩] }
  /-- A holder of bodies of interface methods. -/
  | holder {file : ClassFile} {interfaceName : String} {interface m : Members}
    (hfile : file ∈ files) (hinterface : OrderedIn files interfaceName interface)
    (hname : file.name = interfaceName ++ ClassFile.defaultImplsSuffix)
    (h : m.Implements interfaceName interface (file.methods.map Method.body)) :
    OrderedIn files file.name m

/-- Every class of a tree lists members that are in order. -/
def SourceTree.InOrder (files : List ClassFile) (t : SourceTree) : Prop :=
  ∀ node ∈ t.classes, ∃ m : Members, m.OrderedIn files node.jvmName ∧ t.Lists node m

namespace Draft

open SourceTree

variable {files : List ClassFile} {d d' : Draft}

/-- Slots have nothing to do with the order. -/
theorem inOrder_of_bare {t t' : SourceTree} (h : t.InOrder files)
    (hclasses : t'.classes.map ClassNode.bare = t.classes.map ClassNode.bare)
    (hretains : Retains FunctionNode.bare t t') : t'.InOrder files := by
  intro node hnode
  have hmem : node.bare ∈ t.classes.map ClassNode.bare := by
    rw [← hclasses]
    exact List.mem_map_of_mem hnode
  obtain ⟨old, hold, hbare⟩ := List.mem_map.mp hmem
  obtain ⟨m, hm, hlists⟩ := h old hold
  have hname : node.jvmName = old.jvmName := (congrArg ClassNode.jvmName hbare.symm :)
  exact ⟨m, hname ▸ hm, (hlists.of_bare hbare.symm).retains hretains⟩

/-- Placing classes leaves the order as it is. -/
theorem Keeps.inOrder (h : Keeps d d') (horder : d.tree.InOrder files) :
    d'.tree.InOrder files :=
  inOrder_of_bare horder h.classes (Retains.of_prefix (h.functions ▸ List.prefix_rfl))

/-- A draft whose classes list their members in order, and whose holders come from class files. -/
structure Listed (files : List ClassFile) (d : Draft) : Prop where
  /-- The classes so far list their members in order. -/
  classes : d.tree.InOrder files
  /-- Holders that wait for their interfaces come from class files. -/
  holders : ∀ holder ∈ d.holders, ∃ file ∈ files,
    (ResolvedUnit.defaultImpls holder.2).OrderedAs file ∧
      (ResolvedUnit.defaultImpls holder.2).FitsKind

/-- In the empty draft there is nothing that could be out of order. -/
theorem Listed.empty (path : String) : Listed files (empty path) :=
  ⟨by simp [InOrder, Draft.empty], by simp [Draft.empty]⟩

/-- One more class that lists its members in order. -/
theorem inOrder_withClass (h : d.tree.InOrder files) {block : List FunctionNode}
    {node : ClassNode} {source : ClassSource} {new : List ClassFailure} {m : Members}
    (hm : m.OrderedIn files node.jvmName)
    (hlists : (d.withClass block node source new).tree.Lists node m) :
    (d.withClass block node source new).tree.InOrder files := by
  intro other hother
  rcases List.mem_append.mp hother with hold | hnew
  · obtain ⟨m', hm', hlists'⟩ := h other hold
    refine ⟨m', hm', hlists'.retains (Retains.of_prefix ?_)⟩
    rw [withClass, List.map_append]
    exact List.prefix_append _ _
  · obtain rfl := List.mem_singleton.mp hnew
    exact ⟨m, hm, hlists⟩

/-- Adding a class with members that are in order. -/
theorem Listed.addClassWith (h : Listed files d) (path : String) (shape : ClassShape)
    {jvmName : String} {m : Members} (hm : m.OrderedIn files jvmName) :
    Listed files (addClassWith path jvmName shape m d).2 := by
  obtain ⟨block, node, source, new, hrun, rfl, hlists⟩ :=
    addClassWith_lists d path jvmName shape m
  rw [hrun]
  exact ⟨inOrder_withClass h.classes hm hlists, h.holders⟩

/-- Adding what a class file contributes keeps the order. -/
theorem Listed.addUnit (h : Listed files d) (path : String) {u : ResolvedUnit} {file : ClassFile}
    (hfile : file ∈ files) (horder : u.OrderedAs file) (hfits : u.FitsKind) :
    Listed files (addUnit path u d).2 := by
  cases u with
  | classUnit u =>
    obtain ⟨hname, hordered⟩ := horder
    have hm : u.members.OrderedIn files u.jvmName := hname ▸ .declared hfile hordered
    obtain ⟨hclasses, hholders⟩ := h.addClassWith path (.named u.shape) hm
    exact ⟨hclasses, hholders⟩
  | localClass u =>
    obtain ⟨hname, hordered⟩ := horder
    have hm : u.members.OrderedIn files u.jvmName := by
      rcases hordered with hordered | ⟨method, hmethod, heq⟩
      · exact hname ▸ .declared hfile hordered
      · rw [hname, heq]
        exact .lambda hfile hmethod
    obtain ⟨hclasses, hholders⟩ := h.addClassWith path (.localClass u.kind u.origin) hm
    exact ⟨hclasses, hholders⟩
  | facade u =>
    obtain ⟨hname, hordered⟩ := horder
    have hm : u.members.OrderedIn files u.jvmName := hname ▸ .declared hfile hordered
    obtain ⟨hclasses, hholders⟩ := h.addClassWith path (.facade none) hm
    exact ⟨inOrder_of_bare hclasses rfl fun _ _ hf => hf, hholders⟩
  | defaultImpls u =>
    refine ⟨h.classes, fun holder hholder => ?_⟩
    rcases List.mem_append.mp hholder with hold | hnew
    · exact h.holders holder hold
    · obtain rfl := List.mem_singleton.mp hnew
      exact ⟨file, hfile, horder, hfits⟩
  | opaqueUnit | foreign => exact h

/-- Adding what a class file contributes, or reporting it, keeps members in order. -/
theorem Listed.add (h : Listed files d) (path : String) {u : ResolvedUnit} {file : ClassFile}
    (hfile : file ∈ files) (horder : u.OrderedAs file) (hfits : u.FitsKind) :
    Listed files (add path u d).2 := by
  rw [Draft.add, bind_apply, get_apply]
  dsimp only
  cases hname : u.jvmName? with
  | none => exact h.addUnit path hfile horder hfits
  | some name =>
    dsimp only
    split
    · exact ⟨h.classes, h.holders⟩
    · exact Listed.addUnit (d := { d with names := d.names ++ [name] })
        ⟨h.classes, h.holders⟩ path hfile horder hfits

/-- Adding what several class files contribute keeps the order. -/
theorem Listed.all (h : Listed files d) (units : List (String × ResolvedUnit))
    (hunits : ∀ unit ∈ units, ∃ file ∈ files, unit.2.OrderedAs file ∧ unit.2.FitsKind) :
    Listed files (units.forM (fun unit => Draft.add unit.1 unit.2) d).2 := by
  induction units generalizing d with
  | nil => exact h
  | cons first rest ih =>
    obtain ⟨file, hfile, horder, hfits⟩ := hunits first List.mem_cons_self
    exact ih (h.add first.1 hfile horder hfits) fun unit hunit =>
      hunits unit (List.mem_cons_of_mem first hunit)

/-- Placing a holder keeps the order. -/
theorem Listed.placeHolder (h : Listed files d) (path : String) {u : DefaultImplsUnit}
    {file : ClassFile} (hfile : file ∈ files)
    (horder : (ResolvedUnit.defaultImpls u).OrderedAs file)
    (hfits : (ResolvedUnit.defaultImpls u).FitsKind) :
    Listed files (placeHolder path u d).2 := by
  cases hfind : d.namedWith? u.interfaceName with
  | none =>
    rw [placeHolder_apply_of_none path hfind]
    exact ⟨h.classes, h.holders⟩
  | some o =>
    obtain ⟨interface, hinterface, hjvm⟩ := exists_class_of_namedWith? hfind
    obtain ⟨m, hm, hlists⟩ := h.classes interface (List.mem_of_getElem? hinterface)
    obtain ⟨block, node, source, hrun, hname, own, himplements, hown⟩ :=
      addHolder_lists d path u hlists.members
    obtain ⟨hsame, hmethods⟩ := horder
    have hordered : own.OrderedIn files node.jvmName := by
      rw [hname, hsame]
      exact .holder hfile (hjvm ▸ hm) (hsame.symm.trans hfits) (hmethods ▸ himplements)
    have hclasses := inOrder_withClass h.classes hordered hown
    rw [placeHolder_apply_of_some path hfind hinterface hrun]
    refine ⟨inOrder_of_bare hclasses (Lists.map_modify (ClassNode.onNamed_bare ?_))
      fun _ _ hf => hf, h.holders⟩
    exact fun shape => ⟨_, _, _, rfl⟩

/-- Placing all holders keeps the order. -/
theorem Listed.placeHolders (h : Listed files d) : (placeHolders d).2.tree.InOrder files := by
  have hloop (holders : List (String × DefaultImplsUnit)) (d : Draft) (h : Listed files d)
      (hholders : ∀ holder ∈ holders, ∃ file ∈ files,
        (ResolvedUnit.defaultImpls holder.2).OrderedAs file ∧
          (ResolvedUnit.defaultImpls holder.2).FitsKind) :
      Listed files (holders.forM (fun holder => Draft.placeHolder holder.1 holder.2) d).2 := by
    induction holders generalizing d with
    | nil => exact h
    | cons first rest ih =>
      obtain ⟨file, hfile, horder, hfits⟩ := hholders first List.mem_cons_self
      exact ih _ (h.placeHolder first.1 hfile horder hfits) fun holder hholder =>
        hholders holder (List.mem_cons_of_mem first hholder)
  exact (hloop d.holders d h h.holders).classes

end Draft

namespace SourceTree

open Draft

/-- In a composed tree every class lists its members in order. -/
theorem compose_inOrder (path : String) (policy : AccountingPolicy)
    (added : List (String × ResolvedUnit)) (files : List ClassFile)
    (hadded : ∀ unit ∈ added, ∃ file ∈ files, unit.2.OrderedAs file ∧ unit.2.FitsKind) :
    (compose path policy added).tree.InOrder files := by
  have hlisted : Listed files (added.forM (fun unit => add unit.1 unit.2) (empty path)).2 :=
    (Listed.empty path).all added hadded
  obtain ⟨units, hprepared⟩ := ((Added.empty path).all added).prepared (accepted_names_nodup added)
  have hsettles := hprepared.settles
  exact (hsettles.keeps.trans (hprepared.moves hsettles policy).keeps).inOrder hlisted.placeHolders

end SourceTree

end LineAtlas
