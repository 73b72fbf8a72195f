import ServiceHost.Proofs.Graph.Advance

/-!
# Depth first, inputs before components

The components that a key still needs are listed depth first, along inputs in the order in which
they are declared, each after its inputs and once (`Graph.Postorder`). What is there already is
passed by: its inputs are not looked at, and no more are those of what was listed before. There is
one such list at most (`Listed.unique`). There is one if the key passes the check
(`exists_postorder`), and then it consists of what the key needs and every component in it comes
after those that it uses. When the first components of the list have been made and no others, what
is left of the list is the one for the graph as it is then (`Postorder.remaining`).
-/

namespace ServiceHost

open Relation

variable {σ ι : Type}

namespace Graph

/-- The components to be made that are met depth first from keys, one after another, are put behind
those that were listed before. -/
inductive Listed (g : Graph σ ι) : List Key → List Key → List Key → Prop
  | nil (done : List Key) : Listed g done [] done
  /-- What is not to be made, or listed already, is passed by. -/
  | skip {done done' rest : List Key} {key : Key} (h : g.Pending key → key ∈ done)
      (hrest : Listed g done rest done') : Listed g done (key :: rest) done'
  /-- A component to be made is listed after its inputs. -/
  | list {done mid done' rest : List Key} {key : Key} {inputs : Inputs}
      (hunbuilt : g.Unbuilt key inputs) (hnew : key ∉ done)
      (hinputs : Listed g done (inputs.map (·.key)) mid)
      (hrest : Listed g (mid ++ [key]) rest done') : Listed g done (key :: rest) done'

/-- The components that are to be made for the key, depth first. -/
def Postorder (g : Graph σ ι) (key : Key) (order : List Key) : Prop :=
  g.Listed [] [key] order

section
variable {g g' : Graph σ ι} {done done' before after order keys rest : List Key} {key k : Key}
  {inputs : Inputs}

theorem Unbuilt.uses (h : g.Unbuilt key inputs) (hk : k ∈ inputs.map (·.key))
    (hpending : g.Pending k) : g.Uses key k := by
  obtain ⟨p, hp, hkey⟩ := List.mem_map.1 hk
  exact ⟨inputs, h, ⟨p, hp, hkey⟩, hpending⟩

namespace Listed

/-- Nothing that was listed is dropped or moved, and what is added is needed by one of the keys. -/
theorem adds (h : g.Listed done keys done') :
    ∃ more, done' = done ++ more ∧ ∀ k ∈ more, ∃ root ∈ keys, g.Needs root k := by
  induction h with
  | nil done => exact ⟨[], (List.append_nil done).symm, nofun⟩
  | skip _ _ ih =>
    obtain ⟨more, hmore, hneeded⟩ := ih
    refine ⟨more, hmore, fun k hk => ?_⟩
    obtain ⟨root, hroot, hneeds⟩ := hneeded k hk
    exact ⟨root, List.mem_cons_of_mem _ hroot, hneeds⟩
  | @list done mid done' rest key inputs hunbuilt _ _ _ ih ih' =>
    obtain ⟨first, hfirst, hbelow⟩ := ih
    obtain ⟨more, hmore, hneeded⟩ := ih'
    refine ⟨first ++ key :: more, ?_, ?_⟩
    · rw [hmore, hfirst, List.append_assoc, List.append_assoc, List.singleton_append]
    refine List.forall_mem_append.2 ⟨fun k hk => ?_, List.forall_mem_cons.2 ⟨?_, fun k hk => ?_⟩⟩
    · obtain ⟨root, hroot, hneeds⟩ := hbelow k hk
      exact ⟨key, List.mem_cons_self, hneeds.head (hunbuilt.uses hroot hneeds.1)⟩
    · exact ⟨key, List.mem_cons_self, ⟨inputs, hunbuilt⟩, .refl⟩
    · obtain ⟨root, hroot, hneeds⟩ := hneeded k hk
      exact ⟨root, List.mem_cons_of_mem _ hroot, hneeds⟩

/-- What is listed is determined. -/
theorem unique {done'' : List Key} (h : g.Listed done keys done')
    (h' : g.Listed done keys done'') : done' = done'' := by
  induction h generalizing done'' with
  | nil =>
    cases h'
    rfl
  | skip hthere _ ih =>
    cases h' with
    | skip _ hrest' => exact ih hrest'
    | list hunbuilt hnew => exact absurd (hthere ⟨_, hunbuilt⟩) hnew
  | list hunbuilt hnew _ _ ih ih' =>
    cases h' with
    | skip hthere => exact absurd (hthere ⟨_, hunbuilt⟩) hnew
    | list hunbuilt' _ hinputs' hrest' =>
      obtain rfl := hunbuilt.unique hunbuilt'
      obtain rfl := ih hinputs'
      exact ih' hrest'

/-- The keys are gone through one after another. -/
theorem cons_iff :
    g.Listed done (key :: rest) done' ↔
      ∃ mid, g.Listed done [key] mid ∧ g.Listed mid rest done' := by
  constructor
  · intro h
    cases h with
    | skip hthere hrest => exact ⟨_, .skip hthere (.nil _), hrest⟩
    | list hunbuilt hnew hinputs hrest => exact ⟨_, .list hunbuilt hnew hinputs (.nil _), hrest⟩
  · rintro ⟨mid, hfirst, hrest⟩
    cases hfirst with
    | skip hthere hnil =>
      cases hnil
      exact .skip hthere hrest
    | list hunbuilt hnew hinputs hnil =>
      cases hnil
      exact .list hunbuilt hnew hinputs hrest

/-- What is not to be made adds nothing. -/
theorem eq_nil_of_there {more : List Key} (h : g.Listed done [key] (done ++ more))
    (hthere : g.Pending key → key ∈ done) : more = [] :=
  List.append_right_eq_self.1 (h.unique (.skip hthere (.nil done)))

/-- A component to be made adds itself behind its inputs. -/
theorem eq_concat {more : List Key} (h : g.Listed done [key] (done ++ more))
    (hunbuilt : g.Unbuilt key inputs) (hnew : key ∉ done) :
    ∃ first, more = first ++ [key] ∧ g.Listed done (inputs.map (·.key)) (done ++ first) := by
  generalize hend : done ++ more = done' at h
  cases h with
  | skip hthere => exact absurd (hthere ⟨inputs, hunbuilt⟩) hnew
  | list hunbuilt' _ hinputs hrest =>
    obtain rfl := hunbuilt.unique hunbuilt'
    obtain ⟨first, rfl, -⟩ := hinputs.adds
    cases hrest
    rw [List.append_assoc] at hend
    exact ⟨first, List.append_cancel_left hend, hinputs⟩

end Listed

/-! ## Components in order -/

/-- The keys are listed behind components in order, so that all are in order, and nothing but
components of `full` is put there. -/
structure Arranged (g : Graph σ ι) (full done keys done' : List Key) : Prop where
  listed : g.Listed done keys done'
  ordered : g.Ordered done'
  within : ∀ k ∈ done', k ∈ done ∨ k ∈ full
  complete : ∀ k ∈ keys, g.Pending k → k ∈ done'

namespace Arranged

variable {full mid : List Key}

/-- The keys are gone through one after another. -/
theorem cons (h : g.Arranged full done [key] mid) (h' : g.Arranged full mid rest done') :
    g.Arranged full done (key :: rest) done' where
  listed := Listed.cons_iff.2 ⟨mid, h.listed, h'.listed⟩
  ordered := h'.ordered
  within k hk := (h'.within k hk).elim (h.within k) .inr
  complete := by
    obtain ⟨more, rfl, -⟩ := h'.listed.adds
    refine List.forall_mem_cons.2 ⟨fun hpending => ?_, h'.complete⟩
    exact List.mem_append_left _ (h.complete key (List.mem_singleton_self key) hpending)

/-- Keys can be arranged if each of them can that is to be made. -/
theorem of_each (hone : ∀ key ∈ keys, g.Pending key → ∀ done, g.Ordered done →
      ∃ done', g.Arranged full done [key] done') (hdone : g.Ordered done) :
    ∃ done', g.Arranged full done keys done' := by
  induction keys generalizing done with
  | nil => exact ⟨done, .nil done, hdone, fun _ => .inl, nofun⟩
  | cons key rest ih =>
    obtain ⟨hfirst, hrest⟩ := List.forall_mem_cons.1 hone
    by_cases hpending : g.Pending key
    · obtain ⟨mid, hmid⟩ := hfirst hpending done hdone
      obtain ⟨done', hdone'⟩ := ih hrest hmid.ordered
      exact ⟨done', hmid.cons hdone'⟩
    · obtain ⟨done', hdone'⟩ := ih hrest hdone
      exact ⟨done', .skip (absurd · hpending) hdone'.listed, hdone'.ordered, hdone'.within,
        List.forall_mem_cons.2 ⟨(absurd · hpending), hdone'.complete⟩⟩

end Arranged

/-- Each of components in order can be arranged. -/
theorem Ordered.arranged {full : List Key} (h : g.Ordered full) (hkey : key ∈ full)
    (hdone : g.Ordered done) : ∃ done', g.Arranged full done [key] done' := by
  induction h generalizing key done with
  | nil => cases hkey
  | @snoc full last inputs _ hlast hunbuilt hrequired hused ih =>
    rcases List.mem_append.1 hkey with hkey | hkey
    · obtain ⟨done', hdone'⟩ := ih hkey hdone
      refine ⟨done', hdone'.listed, hdone'.ordered, fun k hk => ?_, hdone'.complete⟩
      exact (hdone'.within k hk).imp_right (List.mem_append_left _)
    obtain rfl := List.mem_singleton.1 hkey
    by_cases hthere : key ∈ done
    · exact ⟨done, .skip (fun _ => hthere) (.nil done), hdone, fun _ => .inl,
        List.forall_mem_singleton.2 fun _ => hthere⟩
    obtain ⟨mid, hmid⟩ : ∃ mid, g.Arranged full done (inputs.map (·.key)) mid :=
      Arranged.of_each (List.forall_mem_map.2 fun p hp hpending _ => ih (hused p hp hpending)) hdone
    -- none of the components in order before the last one leads to it
    have hnew : key ∉ mid := fun hmem => (hmid.within key hmem).elim hthere hlast
    have hinputs := List.forall_mem_map.1 hmid.complete
    refine ⟨mid ++ [key], .list hunbuilt hthere hmid.listed (.nil _),
      .snoc hmid.ordered hnew hunbuilt hrequired hinputs, fun k hk => ?_,
      List.forall_mem_singleton.2 fun _ => List.mem_append_right _ (List.mem_singleton_self key)⟩
    rcases List.mem_append.1 hk with hk | hk
    · exact (hmid.within k hk).imp_right (List.mem_append_left _)
    · exact .inr (List.mem_append_right _ hk)

/-- What comes first of components in order is in order. -/
theorem Ordered.of_append (h : g.Ordered (before ++ after)) : g.Ordered before := by
  induction after using List.reverseRecOn with
  | nil => rwa [List.append_nil] at h
  | append_singleton after last ih =>
    refine ih ?_
    rw [← List.append_assoc] at h
    generalize hall : before ++ after ++ [last] = all at h
    cases h with
    | nil => simp at hall
    | snoc hbefore =>
      obtain ⟨hsame, -⟩ := List.append_inj' hall rfl
      rwa [hsame]

/-- There is a list for what passes the check, in order, of what the key needs. -/
theorem exists_postorder (hg : g.Calm) {node : Node σ ι} (hnode : g.node? key = some node)
    (h : g.verify key node = .ok ()) :
    ∃ order, g.Postorder key order ∧ g.Ordered order ∧ ∀ k, k ∈ order ↔ g.Needs key k := by
  by_cases hpending : g.Pending key
  · obtain ⟨full, hfull, hkey⟩ := ordered_of_verify hg hnode h hpending
    obtain ⟨order, horder⟩ := hfull.arranged hkey .nil
    refine ⟨order, horder.listed, horder.ordered, fun k => ⟨fun hk => ?_, fun hneeds => ?_⟩⟩
    · obtain ⟨more, rfl, hneeded⟩ := horder.listed.adds
      obtain ⟨root, hroot, hneeds⟩ := hneeded k hk
      rwa [← List.mem_singleton.1 hroot]
    · have hmem := horder.complete key (List.mem_singleton_self key) hpending
      exact (horder.ordered.sound key hmem k hneeds.2).1
  · have hempty (k : Key) : k ∈ [] ↔ g.Needs key k :=
      ⟨fun hk => absurd hk List.not_mem_nil, fun hneeds => absurd hneeds.1 hpending⟩
    exact ⟨[], .skip (absurd · hpending) (.nil []), .nil, hempty⟩

/-! ## Components that were made since -/

/-- Of the components that were to be made, those of `made` have been since. -/
structure MadeSince (g : Graph σ ι) (made : List Key) (g' : Graph σ ι) : Prop where
  later : g.Later g'
  made_iff : ∀ k, g.Pending k → (g'.item? k = none ↔ k ∉ made)

namespace MadeSince

variable {made : List Key}

theorem refl (g : Graph σ ι) : g.MadeSince [] g := by
  refine ⟨.refl g, ?_⟩
  rintro k ⟨inputs, hunbuilt⟩
  exact ⟨fun _ => List.not_mem_nil, fun _ => hunbuilt.item?⟩

/-- Still to be made is what was not made since. -/
theorem pending_iff (h : g.MadeSince made g') : g'.Pending k ↔ g.Pending k ∧ k ∉ made := by
  constructor
  · rintro ⟨inputs, hunbuilt⟩
    have hpending : g.Pending k := ⟨inputs, h.later.unbuilt_of hunbuilt⟩
    exact ⟨hpending, (h.made_iff k hpending).1 hunbuilt.item?⟩
  · rintro ⟨⟨inputs, hunbuilt⟩, hk⟩
    exact ⟨inputs, h.later.unbuilt hunbuilt ((h.made_iff k ⟨inputs, hunbuilt⟩).2 hk)⟩

/-- In a calm graph a component is cached if it was made since. -/
theorem isCached_iff (h : g.MadeSince made g') (hcalm : g'.Calm) (hpending : g.Pending k) :
    g'.isCached k = true ↔ k ∈ made := by
  have ⟨inputs, construct, cache, hnode, _⟩ := hpending
  obtain ⟨cache', hnode', -⟩ := h.later.recipe _ _ _ _ hnode
  have hcached : g'.isCached k = false ↔ g'.Pending k := by
    rw [isCached, hnode']
    exact hcalm.isCached_eq_false_iff hnode'
  rw [← not_iff_not, Bool.not_eq_true, hcached, h.pending_iff, and_iff_right hpending]

/-- A change of one cache that leaves the component in it. -/
theorem mapCache (h : g.MadeSince made g') {f : Cache ι → Cache ι}
    (hmade : ∀ c, (f c).made = c.made) : g.MadeSince made (g'.mapCache key f) := by
  refine ⟨h.later.trans (.mapCache fun _ _ cache _ item hitem => (hmade cache).trans hitem),
    fun k hpending => ?_⟩
  rw [item?_mapCache hmade]
  exact h.made_iff k hpending

/-- The component that is under construction is made. -/
theorem store (h : g.MadeSince made g') (hbusy : g'.Busy key) (item : Instance ι) :
    g.MadeSince (made ++ [key]) (g'.store key item) := by
  refine ⟨h.later.trans (.mapCache fun inputs construct cache hnode item' hitem => ?_),
    fun k hpending => ?_⟩
  · obtain ⟨_, _, _, hnode', -, hnone⟩ := hbusy
    cases hnode.symm.trans hnode'
    cases hnone.symm.trans hitem
  · rw [item?_store hbusy, List.mem_append, List.mem_singleton]
    split
    · next hk =>
      simp [hk]
    · next hk =>
      rw [h.made_iff k hpending]
      simp [hk]

end MadeSince

/-- When components in order have been made, what is listed is what was listed without them. -/
theorem Listed.remaining (h : g.Listed done keys done') (hbefore : g.Ordered before)
    (hmade : g.MadeSince before g') :
    g'.Listed (done.filter (· ∉ before)) keys (done'.filter (· ∉ before)) := by
  induction h with
  | nil => exact .nil _
  | skip hthere _ ih =>
    refine .skip (fun hpending => ?_) ih
    obtain ⟨hpending, hk⟩ := hmade.pending_iff.1 hpending
    exact List.mem_filter.2 ⟨hthere hpending, decide_eq_true hk⟩
  | @list done mid done' rest key inputs hunbuilt hnew hinputs _ ih ih' =>
    by_cases hkey : key ∈ before
    · -- whatever it needs was made, too
      obtain ⟨more, rfl, hneeded⟩ := hinputs.adds
      have hall : ∀ k ∈ more ++ [key], k ∈ before := by
        refine List.forall_mem_append.2 ⟨fun k hk => ?_, List.forall_mem_singleton.2 hkey⟩
        obtain ⟨root, hroot, hneeds⟩ := hneeded k hk
        exact (hbefore.sound key hkey k (hneeds.2.head (hunbuilt.uses hroot hneeds.1))).1
      have hsame : (done ++ more ++ [key]).filter (· ∉ before) = done.filter (· ∉ before) := by
        have hnil : (more ++ [key]).filter (· ∉ before) = [] :=
          List.filter_eq_nil_iff.2 fun k hk => by simpa using hall k hk
        rw [List.append_assoc, List.filter_append, hnil, List.append_nil]
      rw [hsame] at ih'
      refine .skip (fun hpending => ?_) ih'
      exact absurd hkey (hmade.pending_iff.1 hpending).2
    · have hlast : (mid ++ [key]).filter (· ∉ before) = mid.filter (· ∉ before) ++ [key] := by
        simp [List.filter_append, hkey]
      rw [hlast] at ih'
      have hnone := (hmade.made_iff key ⟨inputs, hunbuilt⟩).2 hkey
      exact .list (hmade.later.unbuilt hunbuilt hnone)
        (fun hmem => hnew (List.mem_of_mem_filter hmem)) ih ih'

/-- When the first components of the list have been made and no others, the rest is still to be
made, in the same order. -/
theorem Postorder.remaining (h : g.Postorder key (before ++ after))
    (hordered : g.Ordered (before ++ after)) (hmade : g.MadeSince before g') :
    g'.Postorder key after := by
  have hrest := Listed.remaining h hordered.of_append hmade
  have hdisjoint := (List.nodup_append'.1 hordered.nodup).2.2
  have hfirst : before.filter (· ∉ before) = [] :=
    List.filter_eq_nil_iff.2 fun k hk => by simpa using hk
  have hlast : after.filter (· ∉ before) = after :=
    List.filter_eq_self.2 fun k hk => decide_eq_true (hdisjoint · hk)
  rwa [List.filter_append, hfirst, hlast] at hrest

end

end Graph

end ServiceHost
