import CodeAtlas.Service.Api

/-!
# What an answer depends on

The service answers a request at once, whatever it keeps, or from the analysis of one
root (`handle_cases`). In the second case the cache is asked once, and nothing but the
outcome of that call has a part in the answer.
-/

namespace CodeAtlas.Service

open CodeAtlas.Query CodeAtlas.Tree

variable {settings : Settings} {defaultRoot : Option String}

/-- A handler answers at once and changes nothing. -/
def AtOnce (settings : Settings) (defaultRoot : Option String)
    (handler : State → Tree → Response × State) (response : Response) : Prop :=
  ∀ cache t, handler ⟨settings, cache, defaultRoot⟩ t = (response, ⟨settings, cache, defaultRoot⟩)

/-- A handler answers from the outcome of the analysis of a root. -/
def FromAnalysis (settings : Settings) (defaultRoot : Option String)
    (handler : State → Tree → Response × State) (root : String)
    (answer : Except RootError Analysis → Response) : Prop :=
  ∀ cache t, handler ⟨settings, cache, defaultRoot⟩ t =
    (answer ((cache.getOrAnalyze t settings.scan root).1.map (·.analysis)),
      ⟨settings, (cache.getOrAnalyze t settings.scan root).2, defaultRoot⟩)

/-- A handler does one or the other. -/
def Settled (settings : Settings) (defaultRoot : Option String)
    (handler : State → Tree → Response × State) : Prop :=
  (∃ response, AtOnce settings defaultRoot handler response) ∨
    ∃ root answer, FromAnalysis settings defaultRoot handler root answer

namespace Settled

variable {handler handler' : State → Tree → Response × State}

theorem atOnce (response : Response) : Settled settings defaultRoot fun s _ => (response, s) :=
  Or.inl ⟨response, fun _ _ => rfl⟩

/-- Only the states with these settings and this default root matter. -/
theorem congr (h : Settled settings defaultRoot handler)
    (heq : ∀ cache t, handler' ⟨settings, cache, defaultRoot⟩ t =
      handler ⟨settings, cache, defaultRoot⟩ t) : Settled settings defaultRoot handler' := by
  rcases h with ⟨response, h⟩ | ⟨root, answer, h⟩
  · exact Or.inl ⟨response, fun cache t => (heq cache t).trans (h cache t)⟩
  · exact Or.inr ⟨root, answer, fun cache t => (heq cache t).trans (h cache t)⟩

theorem map (h : Settled settings defaultRoot handler) (f : Response → Response) :
    Settled settings defaultRoot fun s t => (f (handler s t).1, (handler s t).2) := by
  rcases h with ⟨response, h⟩ | ⟨root, answer, h⟩
  · exact Or.inl ⟨f response, fun cache t => by simp only [h cache t]⟩
  · exact Or.inr ⟨root, f ∘ answer, fun cache t => by simp only [h cache t, Function.comp_apply]⟩

end Settled

/-- The answer from the outcome of an analysis. -/
def respond (write : Analysis → Json) : Except RootError Analysis → Response
  | .ok a => ⟨200, some (write a)⟩
  | .error e => complaint 400 e.message

theorem settled_withAnalysis (root : String) (write : Analysis → Json) :
    Settled settings defaultRoot fun s t => s.withAnalysis t root write := by
  refine Or.inr ⟨root, respond write, fun cache t => ?_⟩
  simp only [State.withAnalysis]
  cases (cache.getOrAnalyze t settings.scan root).1 <;> rfl

theorem settled_fromBody (r : Request) (write : Analysis → Json) :
    Settled settings defaultRoot fun s t => s.fromBody t r write := by
  unfold State.fromBody
  split
  · exact Settled.atOnce _
  · split
    · exact Settled.atOnce _
    · exact Settled.atOnce _
    · exact settled_withAnalysis _ write

theorem settled_fromQuery (root : Option String) (write : Analysis → Json) :
    Settled settings defaultRoot fun s t => s.fromQuery t root write := by
  cases h : root <|> defaultRoot with
  | none =>
    exact (Settled.atOnce (complaint 400 "No root given and the server has no default root")).congr
      fun cache t => by simp only [State.fromQuery, h]
  | some root =>
    exact (settled_withAnalysis root write).congr fun cache t => by
      simp only [State.fromQuery, h]

theorem settled_answer (route : Route) (query : String) (r : Request) :
    Settled settings defaultRoot fun s t => s.answer t route query r := by
  cases route with
  | health => exact Settled.atOnce _
  | analyze => exact settled_fromBody r _
  | facts => exact settled_fromBody r _
  | callGraph =>
    cases h : ReachQuery.ofPairs? (formPairs query) with
    | none => exact (Settled.atOnce ⟨400, none⟩).congr fun cache t => by simp only [State.answer, h]
    | some q =>
      exact (settled_fromQuery q.root fun a =>
        (reachView a.graph q.symbol (q.maxDepth.getD settings.query.defaultMaxDepth)).toJson).congr
          fun cache t => by simp only [State.answer, h]
  | paths =>
    cases h : PathQuery.ofPairs? (formPairs query) with
    | none => exact (Settled.atOnce ⟨400, none⟩).congr fun cache t => by simp only [State.answer, h]
    | some q =>
      exact (settled_fromQuery q.root fun a =>
        (pathView a.graph q.start q.target (q.maxDepth.getD settings.query.defaultMaxDepth)
          settings.query.maxPaths).toJson).congr fun cache t => by simp only [State.answer, h]

/-- Every request is answered at once or from the analysis of one root. -/
theorem handle_cases (settings : Settings) (defaultRoot : Option String) (r : Request) :
    Settled settings defaultRoot fun s t => s.handle t r := by
  cases h : Route.ofPath? (splitTarget r.uri).1 with
  | none => exact (Settled.atOnce ⟨404, none⟩).congr fun cache t => by simp only [State.handle, h]
  | some route =>
    have hanswer : Settled settings defaultRoot
        fun s t => s.answer t route (splitTarget r.uri).2 r := settled_answer route _ r
    by_cases hmethod : r.method == route.method
    · exact hanswer.congr fun cache t => by simp only [State.handle, h, if_pos hmethod]
    by_cases hhead : r.method == "HEAD" && route.method == "GET"
    · exact (hanswer.map fun response => { response with body := none }).congr fun cache t => by
        simp only [State.handle, h, if_neg hmethod, if_pos hhead]
    · exact (Settled.atOnce ⟨405, none⟩).congr fun cache t => by
        simp only [State.handle, h, if_neg hmethod, if_neg hhead]

end CodeAtlas.Service
