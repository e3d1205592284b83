import CodeAtlas.Proofs.MarkedActions

/-!
# Reading without recovery

What the machine does as long as it does not recover from an error, it does behind a byte order
mark as well. Recovery is left out : its costs are counted in bytes from the beginning of the
text. `readsPlainly` runs the machine along and says whether no version recovers, the first token
is not empty and no reduction is made at the beginning of the text. The tree of a text that is
read plainly, moved on, is the tree of the text with a mark (`parse_withMark`), where the machine
may take more steps.
-/

namespace CodeAtlas.Syntax

open CodeAtlas.Grammar CodeAtlas.Text

variable {σ : Type}

/-- Whether a token can be pushed on a version at a byte : it begins the text just if the version
is still at the beginning. -/
def Subtree.fits (byte : Nat) : Subtree σ → Bool
  | .leaf token =>
    decide (0 < token.stop.position.byte) &&
      (decide (token.padding < token.start.position.byte) == decide (0 < byte))
  | .node _ _ => false

theorem Subtree.liesOn_of_fits {byte : Nat} {t : Subtree σ} (h : t.fits byte = true) :
    t.LiesOn byte := by
  cases t with
  | node s cs => exact Bool.noConfusion h
  | leaf token =>
    simp only [fits, Bool.and_eq_true, decide_eq_true_eq, beq_iff_eq, decide_eq_decide] at h
    refine ⟨h.1, ?_⟩
    have hpadding : (Subtree.leaf token).pastMark.padding =
        if token.start.position.byte ≤ token.padding then token.padding + 3 else token.padding := rfl
    have hown : (Subtree.leaf token).padding = token.padding := rfl
    rw [hpadding, hown, markGap]
    split_ifs <;> omega

namespace Machine

section

variable [BEq σ] (l : Language) (tk : Tokenizer σ)

/-! ## One token -/

/-- Whether the actions of a state on a token can be carried out without recovery. -/
def performsPlainly (v : Nat) (token : Subtree σ) : List Action → Machine σ → Bool
  | [], _ => true
  | .shift true :: rest, m => performsPlainly v token rest m
  | .shift false :: _, m => token.fits (m.stack.position v)
  | .shiftExtra :: _, m => token.fits (m.stack.position v)
  | .accept :: _, m => token.fits (m.stack.position v)
  | .reduce symbol count dynamic production :: rest, m =>
    decide (0 < m.stack.position v) &&
      performsPlainly v token rest ((reduce l v symbol count dynamic production).run m).2
  | .recover :: _, _ => false

/-- The actions are carried out one after the other, until one ends them. -/
theorem goes_perform (v n : Nat) (token : Subtree σ) :
    ∀ (actions : List Action) (any : Bool) (last : Option Nat) (m : Machine σ), m.stack.Steady →
      performsPlainly l v token actions m = true →
      Goes id (perform l v n token actions any last)
        (perform l v n token.pastMark actions any last) m
  | [], any, last, _, hm, _ => .pure hm (Outcome.reduced any last)
  | .shift true :: rest, any, last, m, hm, h => goes_perform v n token rest any last m hm h
  | .shift false :: _, _, _, m, hm, h => by
    have ht := Subtree.liesOn_of_fits h
    have hsymbol : tokenSymbol? token.pastMark = tokenSymbol? token := by
      rw [tokenSymbol?, Subtree.label_pastMark]
      rfl
    rw [perform, perform, hsymbol]
    cases tokenSymbol? token with
    | none => exact .bind (.pure (g := id) hm 0) (.bind (goes_shift l v 0 false hm ht)
        (.pure (goes_shift l v 0 false hm ht).steady Outcome.done))
    | some symbol =>
      refine .goto_bind l n symbol fun next automaton => ?_
      have hshift := goes_shift l v next false (m := { m with automaton }) hm ht
      exact .bind hshift (.pure hshift.steady Outcome.done)
  | .shiftExtra :: _, _, _, m, hm, h => by
    have hshift := goes_shift l v n true hm (Subtree.liesOn_of_fits h)
    exact .bind hshift (.pure hshift.steady Outcome.done)
  | .accept :: _, _, _, m, hm, h => by
    have haccept := goes_accept l v hm (Subtree.liesOn_of_fits h)
    exact .bind haccept (.pure haccept.steady Outcome.done)
  | .reduce symbol count dynamic production :: rest, any, last, m, hm, h => by
    obtain ⟨hpos, hrest⟩ := Bool.and_eq_true_iff.mp h
    have hreduce := goes_reduce l v symbol count dynamic production hm (of_decide_eq_true hpos)
    exact .bind hreduce (goes_perform v n token rest true _ _ hreduce.steady hrest)

/-- Whether a token can be used along a version without recovery. -/
def usesPlainly (v : Nat) : Nat → Subtree σ → Machine σ → Bool
  | 0, _, _ => false
  | fuel + 1, token, m =>
    let n := m.stack.state v
    let actions := actionsFor m n token
    performsPlainly l v token actions m &&
      match (perform l v n token actions false none).run m with
      | (.done, _) => true
      | (.reduced _ (some w), m) => usesPlainly v fuel token { m with stack := m.stack.renumber w v }
      | (.reduced true none, _) => true
      | (.reduced false none, m) =>
        match asWord? l token !(m.automaton.actionsAt n l.word).isEmpty with
        | some word => usesPlainly v fuel word m
        | none => n != 0

/-- What is done after the actions of a state `n`. -/
def afterwards (v fuel n : Nat) (token : Subtree σ) : Outcome → StateM (Machine σ) Unit
  | .done => pure ()
  | .reduced _ (some w) => do
    modifyStack fun s => s.renumber w v
    useToken l v fuel token
  | .reduced true none => modifyStack fun s => s.halt v
  | .reduced false none => do
    match asWord? l token !((← get).automaton.actionsAt n l.word).isEmpty with
    | some word => useToken l v fuel word
    | none => if n == 0 then recover l v token else modifyStack fun s => s.pause v token

/-- Carrying out the actions and what follows them, apart from each other. -/
theorem useToken_succ (v fuel : Nat) (token : Subtree σ) : useToken l v (fuel + 1) token =
    get >>= fun m => perform l v (m.stack.state v) token (actionsFor m (m.stack.state v) token)
      false none >>= afterwards l v fuel (m.stack.state v) token := by
  rw [useToken]
  refine congrArg (get >>= ·) (funext fun m => congrArg (_ >>= ·) (funext fun outcome => ?_))
  match outcome with
  | .done => rfl
  | .reduced _ (some w) => rfl
  | .reduced true none => rfl
  | .reduced false none => rfl

/-- A token is used as without the mark, also if there are more rounds left for it. -/
theorem goes_useToken (v : Nat) : ∀ (fuel fuel' : Nat) (token : Subtree σ) (m : Machine σ),
    fuel ≤ fuel' → m.stack.Steady → usesPlainly l v fuel token m = true →
      Goes id (useToken l v fuel token) (useToken l v fuel' token.pastMark) m
  | 0, _, _, _, _, _, h => Bool.noConfusion h
  | fuel + 1, 0, _, _, hle, _, _ => absurd hle (Nat.not_succ_le_zero fuel)
  | fuel + 1, fuel' + 1, token, m, hle, hm, h => by
    obtain ⟨hperforms, hafter⟩ := Bool.and_eq_true_iff.mp h
    have hperform := goes_perform l v (m.stack.state v) token _ false none m hm hperforms
    have hstate : m.withMark.stack.state v = m.stack.state v := m.stack.state_withMark v
    rw [useToken_succ, useToken_succ]
    refine .get_bind ?_
    rw [hstate, actionsFor_withMark]
    refine .bind hperform ?_
    have hsteady := hperform.steady
    generalize (perform l v (m.stack.state v) token (actionsFor m (m.stack.state v) token) false
      none).run m = result at hafter hsteady
    obtain ⟨outcome, m'⟩ := result
    match outcome, hafter with
    | .done, _ => exact .pure hsteady ()
    | .reduced _ (some w), hafter =>
      exact .modifyStack_bind (m'.stack.renumber_withMark w v)
        (goes_useToken v fuel fuel' token _ (Nat.le_of_succ_le_succ hle) (hsteady.renumber w v) hafter)
    | .reduced true none, _ =>
      exact goes_halt v hsteady
    | .reduced false none, hafter =>
      refine .get_bind ?_
      have hautomaton : m'.withMark.automaton = m'.automaton := rfl
      rw [hautomaton, asWord?_pastMark]
      dsimp only at hafter
      cases hword : asWord? l token !(m'.automaton.actionsAt (m.stack.state v) l.word).isEmpty with
      | some word =>
        rw [hword] at hafter
        exact goes_useToken v fuel fuel' word m' (Nat.le_of_succ_le_succ hle) hsteady hafter
      | none =>
        rw [hword] at hafter
        have hn : ¬(m.stack.state v == 0) = true := by simpa using hafter
        rw [Option.map_none]
        dsimp only
        rw [if_neg hn, if_neg hn]
        exact goes_pause v token hsteady

/-- Whether a version can be moved on by one token without recovery. -/
def advancesPlainly (fuel v : Nat) (m : Machine σ) : Bool :=
  let n := m.stack.state v
  let token := nextToken l tk m v n
  n != 0 && (m.stack.top v).errorCost == 0 &&
    (decide (0 < m.stack.position v) || begins l tk m v n) &&
    decide (m.stack.position v ≤ token.start.position.byte) && usesPlainly l v fuel token m

variable {tk}

/-- A version that is moved on plainly finds the same token and uses it alike. -/
theorem goes_advance (htk : tk.SkipsMark) {fuel fuel' : Nat} (hle : fuel ≤ fuel') (v : Nat)
    {m : Machine σ} (hm : m.stack.Steady) (h : advancesPlainly l tk fuel v m = true) :
    Goes id (advance l tk fuel v) (advance l tk fuel' v) m := by
  simp only [advancesPlainly, Bool.and_eq_true, bne_iff_ne, beq_iff_eq, Bool.or_eq_true,
    decide_eq_true_eq] at h
  obtain ⟨⟨⟨⟨hn, hclean⟩, hbegin⟩, hstart⟩, huses⟩ := h
  have hstate : m.withMark.stack.state v = m.stack.state v := m.stack.state_withMark v
  refine .get_bind ?_
  dsimp only
  rw [hstate, nextToken_withMark htk hm hn hclean hbegin hstart]
  exact goes_useToken l v fuel fuel' _ m hle hm huses

/-! ## All versions -/

variable (tk) in
/-- Whether a version can be moved on past `last` without recovery. -/
def advancesWhilePlainly (fuel v : Nat) : Nat → Nat → Machine σ → Bool
  | 0, _, _ => false
  | rounds + 1, last, m =>
    !m.stack.isActive v ||
      (advancesPlainly l tk fuel v m &&
        (let m := ((advance l tk fuel v).run m).2
         let place := m.stack.position v
         place > last || (v > 0 && place == last) || advancesWhilePlainly fuel v rounds last m))

theorem advanceWhile_succ (fuel v rounds last : Nat) :
    advanceWhile l tk fuel v (rounds + 1) last = get >>= fun m =>
      if !m.stack.isActive v then pure last
      else advance l tk fuel v >>= fun _ => get >>= fun m =>
        if m.stack.position v > last || (v > 0 && m.stack.position v == last)
        then pure (m.stack.position v)
        else advanceWhile l tk fuel v rounds last :=
  rfl

/-- How far a version has got is compared with how far the last one got. Both are counted with the
mark or both without it. -/
theorem goes_advanceWhile (htk : tk.SkipsMark) {fuel fuel' : Nat} (hle : fuel ≤ fuel') (v : Nat) :
    ∀ (rounds rounds' last : Nat) (m : Machine σ), rounds ≤ rounds' → m.stack.Steady →
      advancesWhilePlainly l tk fuel v rounds last m = true →
      Goes markedByte (advanceWhile l tk fuel v rounds last)
        (advanceWhile l tk fuel' v rounds' (markedByte last)) m
  | 0, _, _, _, _, _, h => Bool.noConfusion h
  | rounds + 1, 0, _, _, hrounds, _, _ => absurd hrounds (Nat.not_succ_le_zero rounds)
  | rounds + 1, rounds' + 1, last, m, hrounds, hm, h => by
    have hactive : m.withMark.stack.isActive v = m.stack.isActive v := m.stack.isActive_withMark v
    rw [advanceWhile_succ, advanceWhile_succ]
    refine .get_bind ?_
    rw [hactive]
    cases hv : m.stack.isActive v with
    | false => exact .pure hm last
    | true =>
      rw [advancesWhilePlainly, hv, Bool.not_true, Bool.false_or] at h
      obtain ⟨hadvances, hrest⟩ := Bool.and_eq_true_iff.mp h
      have hadvance := goes_advance l htk hle v hm hadvances
      refine .bind hadvance (.get_bind ?_)
      have hsteady := hadvance.steady
      generalize ((advance l tk fuel v).run m).2 = m' at hrest hsteady
      have hposition : m'.withMark.stack.position v = markedByte (m'.stack.position v) :=
        m'.stack.position_withMark v
      have hlater : decide (markedByte (m'.stack.position v) > markedByte last) =
          decide (m'.stack.position v > last) := decide_eq_decide.mpr markedByte_lt_iff
      dsimp only at hrest
      rw [hposition, markedByte_beq, hlater]
      by_cases hpast : (decide (m'.stack.position v > last) ||
          (decide (v > 0) && m'.stack.position v == last)) = true
      · rw [if_pos hpast, if_pos hpast]
        exact .pure hsteady (m'.stack.position v)
      · rw [if_neg hpast, if_neg hpast]
        rw [Bool.not_eq_true] at hpast
        rw [hpast, Bool.false_or] at hrest
        exact goes_advanceWhile htk hle v rounds rounds' last m' (Nat.le_of_succ_le_succ hrounds)
          hsteady hrest

variable (tk) in
/-- Whether all versions from `v` on can be moved on without recovery. -/
def advancesAllPlainly (fuel : Nat) : Nat → Nat → Nat → Machine σ → Bool
  | 0, _, _, _ => true
  | rounds + 1, v, last, m =>
    decide (v ≥ m.versions) ||
      (advancesWhilePlainly l tk fuel v fuel last m &&
        (let (last, m) := (advanceWhile l tk fuel v fuel last).run m
         advancesAllPlainly fuel rounds (v + 1) last m))

/-- One version after the other is moved on. -/
theorem goes_advanceAll (htk : tk.SkipsMark) {fuel fuel' : Nat} (hle : fuel ≤ fuel') :
    ∀ (rounds v last : Nat) (m : Machine σ), m.stack.Steady →
      advancesAllPlainly l tk fuel rounds v last m = true →
      Goes markedByte (advanceAll l tk fuel rounds v last)
        (advanceAll l tk fuel' rounds v (markedByte last)) m
  | 0, _, last, _, hm, _ => .pure hm last
  | rounds + 1, v, last, m, hm, h => by
    rw [advanceAll, advanceAll]
    refine .get_bind ?_
    rw [versions_withMark]
    by_cases hv : v ≥ m.versions
    · rw [if_pos hv, if_pos hv]
      exact .pure hm last
    · rw [advancesAllPlainly, decide_eq_false hv, Bool.false_or] at h
      obtain ⟨hwhile, hrest⟩ := Bool.and_eq_true_iff.mp h
      have hgoes := goes_advanceWhile l htk hle v fuel fuel' last m hle hm hwhile
      rw [if_neg hv, if_neg hv]
      exact .bind hgoes (goes_advanceAll htk hle rounds (v + 1) _ _ hgoes.steady hrest)

/-! ## Comparing versions -/

/-- Comparing a version with one before it, whatever comes of it. -/
theorem condenseOne_succ (standing : Standing) (fuel i j : Nat) :
    condenseOne l standing (fuel + 1) i j =
      if j ≥ i then (pure i : StateM (Machine σ) Nat)
      else get >>= fun (m : Machine σ) =>
        match (m.stack.standing j).compare standing with
        | .takeLeft => modifyStack (fun s => s.remove i) >>= fun _ => pure (i - 1)
        | .preferLeft => tryMerge l j i >>= fun merged =>
          if merged then pure (i - 1) else condenseOne l standing fuel i (j + 1)
        | .neither => tryMerge l j i >>= fun merged =>
          if merged then pure (i - 1) else condenseOne l standing fuel i (j + 1)
        | .preferRight => tryMerge l j i >>= fun merged =>
          if merged then pure (i - 1)
          else modifyStack (fun s => s.swap i j) >>= fun _ => condenseOne l standing fuel i (j + 1)
        | .takeRight => modifyStack (fun s => s.remove j) >>= fun _ =>
          condenseOne l standing fuel (i - 1) j :=
  rfl

omit [BEq σ] in
/-- How well a version does depends on its costs and not on its place. -/
theorem standing_withMark (s : Stack σ) (v : Nat) : s.withMark.standing v = s.standing v := by
  rw [Stack.standing, Stack.standing, Stack.paused?_withMark, Option.isSome_map,
    Stack.errorCost_withMark, Stack.countSinceError_withMark, Stack.top_withMark,
    Stack.state_withMark]
  rfl

/-- Versions are lost, merged and swapped alike. -/
theorem goes_condenseOne (standing : Standing) : ∀ (fuel i j : Nat) (m : Machine σ),
    m.stack.Steady → Goes id (condenseOne l standing fuel i j) (condenseOne l standing fuel i j) m
  | 0, i, _, _, hm => .pure hm i
  | fuel + 1, i, j, m, hm => by
    have hstanding : m.withMark.stack.standing j = m.stack.standing j := standing_withMark m.stack j
    have hmerge {rest : StateM (Machine σ) Nat} (hrest : Goes id rest rest m) :
        Goes id (tryMerge l j i >>= fun merged => if merged then pure (i - 1) else rest)
          (tryMerge l j i >>= fun merged => if merged then pure (i - 1) else rest) m :=
      .merges_bind (merges_tryMerge l j i hm) hrest fun _ hdone _ => .pure hdone (i - 1)
    rw [condenseOne_succ]
    split_ifs
    · exact .pure hm i
    · refine .get_bind ?_
      rw [hstanding]
      cases (m.stack.standing j).compare standing with
      | takeLeft =>
        exact .modifyStack_bind (m.stack.remove_withMark i) (.pure (hm.remove i) (i - 1))
      | preferLeft => exact hmerge (goes_condenseOne standing fuel i (j + 1) m hm)
      | neither => exact hmerge (goes_condenseOne standing fuel i (j + 1) m hm)
      | preferRight =>
        exact hmerge (.modifyStack_bind (m.stack.swap_withMark i j)
          (goes_condenseOne standing fuel i (j + 1) _ (hm.swap i j)))
      | takeRight =>
        exact .modifyStack_bind (m.stack.remove_withMark j)
          (goes_condenseOne standing fuel (i - 1) j _ (hm.remove j))

/-- Every version is compared with those before it, and those that have stopped are lost. -/
theorem goes_condenseAll : ∀ (fuel i : Nat) (least : Option Nat) (m : Machine σ),
    m.stack.Steady → Goes id (condenseAll l fuel i least) (condenseAll l fuel i least) m
  | 0, _, least, _, hm => .pure hm least
  | fuel + 1, i, least, m, hm => by
    have hhalted : m.withMark.stack.isHalted i = m.stack.isHalted i := m.stack.isHalted_withMark i
    rw [condenseAll]
    refine .get_bind ?_
    rw [versions_withMark, hhalted]
    split_ifs
    · exact .pure hm least
    · exact .modifyStack_bind (m.stack.remove_withMark i)
        (goes_condenseAll fuel i least _ (hm.remove i))
    · refine .modifyStack_bind (m.stack.clamp_withMark i) (.get_bind ?_)
      have hsteady : (m.stack.clamp i).Steady := hm.modifyHead i fun _ => rfl
      have hstanding := standing_withMark (m.stack.clamp i) i
      generalize m.stack.clamp i = s at hsteady hstanding
      have hstack : (withMark { m with stack := s }).stack = s.withMark := rfl
      rw [hstack, hstanding]
      have hone := goes_condenseOne l (s.standing i) 1000 i 0 { m with stack := s } hsteady
      exact .bind hone (goes_condenseAll fuel _ _ _ hone.steady)

/-- Whether no version has to be resumed. -/
def resumesPlainly : Nat → Nat → Nat → Bool → Machine σ → Bool
  | 0, _, _, _, _ => true
  | fuel + 1, i, count, going, m =>
    decide (i ≥ count) ||
      match m.stack.paused? i with
      | none => resumesPlainly fuel (i + 1) count true m
      | some _ =>
        !(!going && m.accepted < maxVersions) &&
          resumesPlainly fuel i (count - 1) going { m with stack := m.stack.remove i }

/-- Where no version is resumed, those that wait are lost. -/
theorem goes_resumeLoop : ∀ (fuel i count : Nat) (going : Bool) (least : Option Nat)
    (m : Machine σ), m.stack.Steady → resumesPlainly fuel i count going m = true →
      Goes id (resumeLoop l fuel i count going least) (resumeLoop l fuel i count going least) m
  | 0, _, _, _, least, _, hm, _ => .pure hm least
  | fuel + 1, i, count, going, least, m, hm, h => by
    rw [resumeLoop]
    by_cases hi : i ≥ count
    · rw [if_pos hi]
      exact .pure hm least
    rw [if_neg hi]
    rw [resumesPlainly, decide_eq_false hi, Bool.false_or] at h
    refine .get_bind ?_
    have hpaused : m.withMark.stack.paused? i = (m.stack.paused? i).map Subtree.pastMark :=
      m.stack.paused?_withMark i
    have haccepted : m.withMark.accepted = m.accepted := rfl
    rw [hpaused, haccepted]
    cases hstatus : m.stack.paused? i with
    | none =>
      rw [hstatus] at h
      exact goes_resumeLoop fuel (i + 1) count true least m hm h
    | some token =>
      rw [hstatus] at h
      obtain ⟨hgoing, hrest⟩ := Bool.and_eq_true_iff.mp h
      rw [Bool.not_eq_true'] at hgoing
      simp only [Option.map_some, hgoing, Bool.false_eq_true, if_false]
      exact .modifyStack_bind (m.stack.remove_withMark i)
        (goes_resumeLoop fuel i (count - 1) going least _ (hm.remove i) hrest)

/-- Whether the versions can be compared and none has to be resumed. -/
def condensesPlainly (m : Machine σ) : Bool :=
  let m := ((condenseAll l 1000 0 none).run m).2
  let m := { m with stack := { m.stack with heads := m.stack.heads.extract 0 maxVersions } }
  resumesPlainly 1000 0 m.versions false m

theorem goes_condense {m : Machine σ} (hm : m.stack.Steady) (h : condensesPlainly l m = true) :
    Goes id (condense l) (condense l) m := by
  have hall := goes_condenseAll l 1000 0 none m hm
  refine .bind hall (.modifyStack_bind (Stack.extract_withMark _ maxVersions) (.get_bind ?_))
  rw [versions_withMark]
  exact goes_resumeLoop l 1000 0 _ false _ _ (hall.steady.extract maxVersions) h

/-! ## The whole text -/

/-- Whether the complete reading is better than any version can be. -/
def settled (finished : Option (Subtree σ)) (least : Option Nat) : Bool :=
  match finished, least with
  | some t, some cost => decide (t.errorCost < cost)
  | some _, none => true
  | none, _ => false

omit [BEq σ] in
theorem settled_pastMark (finished : Option (Subtree σ)) (least : Option Nat) :
    settled (finished.map Subtree.pastMark) least = settled finished least := by
  cases finished <;> cases least <;>
    simp only [settled, Option.map_none, Option.map_some, Subtree.errorCost_pastMark]

variable (tk) in
/-- Whether the machine reads on without recovery until no version is left. -/
def runsPlainly (fuel : Nat) : Nat → Nat → Machine σ → Bool
  | 0, _, _ => false
  | rounds + 1, last, m =>
    advancesAllPlainly l tk fuel 1000 0 last m &&
      (let (last, m) := (advanceAll l tk fuel 1000 0 last).run m
       condensesPlainly l m &&
        (let (least, m) := (condense l).run m
         (settled m.finished least || m.versions == 0) || runsPlainly fuel rounds last m))

theorem run_succ (fuel rounds last : Nat) : run l tk fuel (rounds + 1) last =
    advanceAll l tk fuel 1000 0 last >>= fun last => condense l >>= fun least =>
      get >>= fun m =>
        if settled m.finished least || m.versions == 0 then pure ()
        else run l tk fuel rounds last :=
  rfl

/-- The machine goes on to the same end, in at least as many rounds. -/
theorem goes_run (htk : tk.SkipsMark) {fuel fuel' : Nat} (hle : fuel ≤ fuel') :
    ∀ (rounds rounds' last : Nat) (m : Machine σ), rounds ≤ rounds' → m.stack.Steady →
      runsPlainly l tk fuel rounds last m = true →
      Goes id (run l tk fuel rounds last) (run l tk fuel' rounds' (markedByte last)) m
  | 0, _, _, _, _, _, h => Bool.noConfusion h
  | rounds + 1, 0, _, _, hrounds, _, _ => absurd hrounds (Nat.not_succ_le_zero rounds)
  | rounds + 1, rounds' + 1, last, m, hrounds, hm, h => by
    obtain ⟨hadvances, h⟩ := Bool.and_eq_true_iff.mp h
    have hadvance := goes_advanceAll l htk hle 1000 0 last m hm hadvances
    rw [run_succ, run_succ]
    refine .bind hadvance ?_
    have hsteady := hadvance.steady
    generalize (advanceAll l tk fuel 1000 0 last).run m = advanced at h hsteady
    obtain ⟨last, m⟩ := advanced
    obtain ⟨hcondenses, h⟩ := Bool.and_eq_true_iff.mp h
    have hcondense := goes_condense l hsteady hcondenses
    refine .bind hcondense (.get_bind ?_)
    have hsteady := hcondense.steady
    generalize (condense l).run m = condensed at h hsteady
    obtain ⟨least, m⟩ := condensed
    have hfinished : m.withMark.finished = m.finished.map Subtree.pastMark := rfl
    dsimp only at h hsteady ⊢
    rw [hfinished, id, settled_pastMark, versions_withMark]
    by_cases hdone : (settled m.finished least || m.versions == 0) = true
    · rw [if_pos hdone, if_pos hdone]
      exact .pure hsteady ()
    · rw [if_neg hdone, if_neg hdone]
      rw [Bool.not_eq_true] at hdone
      rw [hdone, Bool.false_or] at h
      exact goes_run htk hle rounds rounds' last m (Nat.le_of_succ_le_succ hrounds) hsteady h

end

end Machine

namespace Stack

/-- The bottom of the stack stands before the mark. -/
theorem initial_withMark (start : Cursor) :
    (initial start : Stack σ).withMark = initial start.withMark := by
  have hnode : StackNode.withMark (⟨1, start, #[], 0, 0, 0⟩ : StackNode σ) =
      ⟨1, start.withMark, #[], 0, 0, 0⟩ := by
    rw [StackNode.withMark, Array.map_empty]
  have hhead : (default : Head σ).pastMark = default := rfl
  simp only [initial, withMark, List.map_toArray, List.map_cons, List.map_nil, hnode, hhead]

/-- A stack is steady to begin with, as it has nothing but its bottom. -/
theorem steady_initial {start : Cursor} (h : start.Unmarked) : (initial start : Stack σ).Steady where
  heads v := by
    have hhead : (initial start : Stack σ).head v = default := by
      cases v <;> rfl
    rw [hhead]
    exact Nat.one_pos
  unmarked n hn := by
    obtain rfl : n = 0 := Nat.lt_one_iff.mp hn
    exact h
  links n link hlink := by
    have hlinks : ((initial start : Stack σ).node n).links = #[] := by
      cases n <;> rfl
    rw [hlinks] at hlink
    exact absurd hlink (Array.not_mem_empty _)

end Stack

section

variable [BEq σ] (l : Language) (tk : Tokenizer σ)

/-- Whether a text is read without recovery. -/
def readsPlainly (automaton : Automaton) (text : Cursor) : Bool :=
  let fuel := 8 * text.rest.length + 4000
  Machine.runsPlainly l tk fuel fuel 0 ⟨Stack.initial text, automaton, none, 0⟩

theorem parse_eq (automaton : Automaton) (text : Cursor) : parse l tk automaton text =
    ((Machine.run l tk (8 * text.rest.length + 4000) (8 * text.rest.length + 4000) 0).run
      ⟨Stack.initial text, automaton, none, 0⟩).2.finished :=
  rfl

/-- A text that is read plainly has the same tree with a mark, moved on. -/
theorem parse_withMark {tk : Tokenizer σ} (htk : tk.SkipsMark) (automaton : Automaton) {text : Cursor}
    (htext : text.Unmarked) (h : readsPlainly l tk automaton text = true) :
    parse l tk automaton text.withMark = (parse l tk automaton text).map Subtree.pastMark := by
  have hle : 8 * text.rest.length + 4000 ≤ 8 * text.withMark.rest.length + 4000 := by
    have := text.length_rest_le_withMark
    omega
  rw [parse_eq, parse_eq]
  rw [readsPlainly] at h
  -- the machine is not to be run here
  generalize 8 * text.rest.length + 4000 = fuel at h hle ⊢
  generalize 8 * text.withMark.rest.length + 4000 = fuel' at hle ⊢
  have hmarked : Machine.withMark ⟨Stack.initial text, automaton, none, 0⟩ =
      (⟨Stack.initial text.withMark, automaton, none, 0⟩ : Machine σ) := by
    rw [Machine.withMark, Stack.initial_withMark]
    rfl
  have hrun := (Machine.goes_run l htk hle fuel fuel' 0 _ hle (Stack.steady_initial htext) h).marked
  have hzero : markedByte 0 = 0 := rfl
  rw [hmarked, hzero] at hrun
  rw [hrun]
  rfl

end

end CodeAtlas.Syntax
