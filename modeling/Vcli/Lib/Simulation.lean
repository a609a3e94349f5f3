import Vcli.Lib.Transducer

/-! Machines that do as a labelled transition relation allows: what a run emits is a path of the
relation, and what holds along its paths holds of the machine. -/

namespace Simulation

variable {S A O T : Type*} {f : S → A → S × List O} {step : T → O → T → Prop}

inductive Path (step : T → O → T → Prop) : T → List O → T → Prop
  | nil (t : T) : Path step t [] t
  | cons {t u v : T} {o : O} {os : List O} (first : step t o u) (rest : Path step u os v) :
      Path step t (o :: os) v

namespace Path

variable {t u v : T} {o : O} {os os' : List O}

theorem single (h : step t o u) : Path step t [o] u := .cons h (.nil u)

theorem append (h : Path step t os u) (h' : Path step u os' v) : Path step t (os ++ os') v := by
  induction h with
  | nil t => exact h'
  | cons first rest ih => exact .cons first (ih h')

theorem history {I : T → List O → Prop} (h : Path step t os u) (done : List O)
    (hstep : ∀ t done o u, step t o u → I t done → I u (done ++ [o])) (hI : I t done) :
    I u (done ++ os) := by
  induction h generalizing done with
  | nil t =>
    rw [List.append_nil]
    exact hI
  | cons first rest ih =>
    have hnext := ih _ (hstep _ done _ _ first hI)
    rwa [List.append_assoc, List.singleton_append] at hnext

end Path

/-- A machine each of whose steps is matched from every related state emits a path. -/
theorem run_path {R : S → T → Prop} {s : S} {t : T} {as : List A}
    (sim : ∀ r ∈ Transducer.trail f s as, ∀ t, R r.1 t →
      ∃ u, Path step t (f r.1 r.2).2 u ∧ R (f r.1 r.2).1 u) (h : R s t) :
    ∃ u, Path step t (Transducer.run f s as).2 u ∧ R (Transducer.run f s as).1 u := by
  induction as generalizing s t with
  | nil => exact ⟨t, .nil t, h⟩
  | cons a as ih =>
    obtain ⟨u, hfirst, hu⟩ := sim (s, a) List.mem_cons_self t h
    obtain ⟨v, hrest, hv⟩ := ih (fun r hr => sim r (List.mem_cons_of_mem _ hr)) hu
    exact ⟨v, hfirst.append hrest, hv⟩

/-- A machine each of whose steps another one can follow, as far as what is shown of both goes,
shows what a run of the other shows. -/
theorem run_refines {B P V : Type*} {g : T → B → T × List P} {m : S → T} {u : O → Option V}
    {v : P → Option V} {allowed : B → Prop} {s : S} {as : List A}
    (sim : ∀ r ∈ Transducer.trail f s as, ∃ bs, (∀ b ∈ bs, allowed b) ∧
      (Transducer.run g (m r.1) bs).1 = m (f r.1 r.2).1 ∧
      (Transducer.run g (m r.1) bs).2.filterMap v = (f r.1 r.2).2.filterMap u) :
    ∃ bs, (∀ b ∈ bs, allowed b) ∧
      (Transducer.run g (m s) bs).1 = m (Transducer.run f s as).1 ∧
      (Transducer.run g (m s) bs).2.filterMap v = (Transducer.run f s as).2.filterMap u := by
  induction as generalizing s with
  | nil => exact ⟨[], by simp, rfl, rfl⟩
  | cons a as ih =>
    obtain ⟨first, hfirst, hstate, hshown⟩ := sim (s, a) List.mem_cons_self
    obtain ⟨rest, hrest, hlast, hall⟩ := ih fun r hr => sim r (List.mem_cons_of_mem _ hr)
    refine ⟨first ++ rest, fun b hb => ?_, ?_, ?_⟩
    · exact (List.mem_append.mp hb).elim (hfirst b) (hrest b)
    · rw [Transducer.run_append, hstate, hlast, Transducer.run_cons]
    · rw [Transducer.run_append, hstate, List.filterMap_append, hshown, hall,
        Transducer.run_cons, List.filterMap_append]

end Simulation
