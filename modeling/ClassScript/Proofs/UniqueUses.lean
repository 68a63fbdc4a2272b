import ClassScript.Proofs.DrawnPrograms
import ClassScript.Proofs.Inspection
import ClassScript.Proofs.LaterMachines
import ClassScript.Proofs.ParserSoundness
import ClassScript.Proofs.Parts

/-!
# Uses of names over a whole process

All programs that are read in one process take the labels of their uses of names from one supply, and so
do all programs of a session. So all uses of names are different, a use is noted at most once, and what
is loaded later changes nothing of what is known of an earlier use (`Loaded.DrawnFrom.usedOnce`). That
this holds of whatever the parser reads, and of every session, is `uses_labelled_once`.
-/

set_option autoImplicit false

namespace ClassScript

/-! ## Programs one after the other -/

namespace Machine

theorem foldl_load_distances {a b : Machine} (h : a.distances = b.distances) (ls : List Loaded) :
    (ls.foldl load a).distances = (ls.foldl load b).distances := by
  induction ls generalizing a b with
  | nil => exact h
  | cons l _ ih => exact ih (distances_load h l)

theorem le_nextUse_foldl_load (m : Machine) (ls : List Loaded) :
    m.nextUse ≤ (ls.foldl load m).nextUse := by
  induction ls generalizing m with
  | nil => exact Nat.le_refl _
  | cons l _ ih => exact Nat.le_trans (m.le_nextUse_load l).1 (ih _)

end Machine

/-! ## One supply of labels -/

namespace Loaded

/-- The labels of a program are drawn from the first one on and below the next one, each for one use, and
its report is that of the resolver. -/
structure Drawn (first : NodeId) (l : Loaded) : Prop where
  le : first ≤ l.next
  labels : (Stmt.labelsAll l.program).Subperm (List.range' first (l.next - first))
  report : l.report = resolve l.program

/-- The labels of all programs are drawn from one supply, those of one program after those of the program
before it. -/
inductive DrawnFrom : NodeId → List Loaded → Prop
  | nil {first : NodeId} : DrawnFrom first []
  | cons {first : NodeId} {l : Loaded} {rest : List Loaded} :
    l.Drawn first → DrawnFrom l.next rest → DrawnFrom first (l :: rest)

/-- All uses of names in the programs are different, the resolver notes each of them at most once, and
what is loaded later changes nothing of what is known of an earlier use. -/
structure UsedOnce (ls : List Loaded) : Prop where
  uses : ((ls.flatMap fun l => Stmt.occurrencesAll l.program).map (·.id)).Nodup
  notes : ((ls.flatMap fun l => l.report.notes).map (·.1)).Nodup
  kept : ∀ earlier later, ls = earlier ++ later → ∀ (m : Machine), ∀ l ∈ earlier,
    ∀ o ∈ Stmt.occurrencesAll l.program,
      (later.foldl Machine.load m).distance? o.id = m.distance? o.id

namespace Drawn

variable {first id : NodeId} {l : Loaded}

theorem nodup (h : l.Drawn first) : (Stmt.labelsAll l.program).Nodup := by
  obtain ⟨drawn, hperm, hsub⟩ := h.labels
  exact hperm.nodup_iff.1 (hsub.nodup List.nodup_range')

theorem bounds (h : l.Drawn first) (hid : id ∈ Stmt.labelsAll l.program) :
    first ≤ id ∧ id < l.next := by
  have hmem := h.labels.subset hid
  rwa [List.mem_range'_1, Nat.add_sub_of_le h.le] at hmem

theorem noted (h : l.Drawn first) :
    (l.report.notes.map (·.1)).Subperm (Stmt.labelsAll l.program) := by
  rw [h.report, ← Stmt.map_occurrencesAll]
  exact resolve_about l.program

/-- Labels may have been skipped before. -/
theorem mono {earlier : NodeId} (h : l.Drawn first) (hle : earlier ≤ first) : l.Drawn earlier where
  le := Nat.le_trans hle h.le
  labels := by
    rw [range'_split hle h.le]
    exact h.labels.trans (List.sublist_append_right ..).subperm
  report := h.report

/-- A loaded program changes nothing for uses that are not in it. -/
theorem distance?_load (h : l.Drawn first) (m : Machine) (hid : id ∉ Stmt.labelsAll l.program) :
    (m.load l).distance? id = m.distance? id :=
  m.distance?_load_of_not_mem fun _ hd => hid (h.noted.subset (List.mem_map_of_mem hd))

end Drawn

namespace DrawnFrom

variable {first id : NodeId} {ls : List Loaded}

theorem mono {earlier : NodeId} (h : DrawnFrom first ls) (hle : earlier ≤ first) :
    DrawnFrom earlier ls := by
  cases h with
  | nil => exact .nil
  | cons hl hrest => exact .cons (hl.mono hle) hrest

/-- Programs may be left out. -/
theorem sublist {some : List Loaded} (h : DrawnFrom first ls) (hsub : some.Sublist ls) :
    DrawnFrom first some := by
  induction hsub generalizing first with
  | slnil => exact .nil
  | cons _ _ ih =>
    cases h with
    | cons hl hrest => exact (ih hrest).mono hl.le
  | cons_cons _ _ ih =>
    cases h with
    | cons hl hrest => exact .cons hl (ih hrest)

theorem le (h : DrawnFrom first ls) : ∀ l ∈ ls, ∀ id ∈ Stmt.labelsAll l.program, first ≤ id := by
  induction h with
  | nil => exact fun l hl => absurd hl List.not_mem_nil
  | cons hl _ ih =>
    exact List.forall_mem_cons.2
      ⟨fun id hid => (hl.bounds hid).1, fun k hk id hid => Nat.le_trans hl.le (ih k hk id hid)⟩

/-- All labels are different. -/
theorem nodup (h : DrawnFrom first ls) :
    (ls.flatMap fun l => Stmt.labelsAll l.program).Nodup := by
  induction h with
  | nil => exact List.nodup_nil
  | cons hl hrest ih =>
    refine List.nodup_append.2 ⟨hl.nodup, ih, fun i hi j hj he => ?_⟩
    obtain ⟨k, hk, hjk⟩ := List.mem_flatMap.1 hj
    exact absurd (hrest.le k hk j hjk) (Nat.not_le.2 (he ▸ (hl.bounds hi).2))

theorem noted (h : DrawnFrom first ls) :
    ((ls.flatMap fun l => l.report.notes).map (·.1)).Subperm
      (ls.flatMap fun l => Stmt.labelsAll l.program) := by
  induction h with
  | nil => exact List.nil_subperm
  | cons hl _ ih =>
    rw [List.flatMap_cons, List.flatMap_cons, List.map_append]
    exact List.Subperm.append hl.noted ih

/-- Loaded programs change nothing for uses that are in none of them. -/
theorem distance?_foldl_load (h : DrawnFrom first ls) (m : Machine)
    (hid : ∀ l ∈ ls, id ∉ Stmt.labelsAll l.program) :
    (ls.foldl Machine.load m).distance? id = m.distance? id := by
  induction h generalizing m with
  | nil => rfl
  | cons hl _ ih =>
    obtain ⟨hhere, hlater⟩ := List.forall_mem_cons.1 hid
    rw [List.foldl_cons, ih _ hlater, hl.distance?_load m hhere]

theorem lt_nextUse (h : DrawnFrom first ls) (m : Machine) :
    ∀ l ∈ ls, ∀ id ∈ Stmt.labelsAll l.program, id < (ls.foldl Machine.load m).nextUse := by
  induction h generalizing m with
  | nil => exact fun l hl => absurd hl List.not_mem_nil
  | @cons _ l rest hl _ ih =>
    refine List.forall_mem_cons.2 ⟨fun id hid => ?_, ih (m.load l)⟩
    calc id < l.next := (hl.bounds hid).2
      _ ≤ (m.load l).nextUse := (m.le_nextUse_load l).2
      _ ≤ (rest.foldl Machine.load (m.load l)).nextUse := (m.load l).le_nextUse_foldl_load rest

/-- Programs with labels from one supply use each label once. -/
theorem usedOnce (h : DrawnFrom first ls) : UsedOnce ls where
  uses := by
    rw [List.map_flatMap]
    simpa only [Stmt.map_occurrencesAll] using h.nodup
  notes := by
    obtain ⟨drawn, hperm, hsub⟩ := h.noted
    exact hperm.nodup_iff.1 (hsub.nodup h.nodup)
  kept earlier later hsplit m l hl o ho := by
    subst hsplit
    have hlater : DrawnFrom first later := h.sublist (List.sublist_append_right ..)
    have hnodup := h.nodup
    rw [List.flatMap_append] at hnodup
    refine hlater.distance?_foldl_load m fun k hk hid => ?_
    have ho : o.id ∈ Stmt.labelsAll l.program :=
      Stmt.map_occurrencesAll l.program ▸ List.mem_map_of_mem ho
    exact List.disjoint_of_nodup_append hnodup (List.mem_flatMap.2 ⟨l, hl, ho⟩)
      (List.mem_flatMap.2 ⟨k, hk, hid⟩)

end DrawnFrom

end Loaded

/-! ## Programs of a parser -/

namespace Parser

/-- The programs that are read from one token list after the other with the labels of one supply. Labels of
what is no program are not taken back. -/
def loads (label : NodeId) : List (List Token) → List Loaded
  | [] => []
  | tokens :: rest =>
    match parseFrom (depthFor tokens) label tokens with
    | .ok (.ok program, next) => ⟨program, next, resolve program⟩ :: loads next rest
    | .ok (.error _, next) => loads next rest
    | .error _ => loads label rest

/-- A parse with labels accepts what a parse without labels accepts. -/
theorem parseFrom_cases (label : NodeId) (tokens : List Token) :
    (∃ program next, parseFrom (depthFor tokens) label tokens = .ok (.ok program, next) ∧
        parseTokens tokens = .ok (Stmt.relabelAll .bare program) ∧
        Loaded.Drawn label ⟨program, next, resolve program⟩) ∨
      ∃ errors next, parseFrom (depthFor tokens) label tokens = .ok (.error errors, next) ∧
        parseTokens tokens = .error errors ∧ label ≤ next := by
  have hdraws := parseFrom_draws (depthFor tokens) label tokens
  have hparse := parse_eq_read tokens
  unfold parseTokens
  rw [parse] at hparse ⊢
  cases hp : parseFrom (depthFor tokens) label tokens with
  | error c =>
    rw [hp] at hdraws
    cases hparse.symm.trans hdraws
  | ok found =>
    obtain ⟨result, next⟩ := found
    rw [hp] at hdraws
    cases result with
    | error errors =>
      obtain ⟨hbare, hle⟩ := hdraws
      rw [hbare]
      exact .inr ⟨errors, next, rfl, rfl, hle⟩
    | ok program =>
      obtain ⟨hbare, hle, hlabels⟩ := hdraws
      rw [hbare]
      exact .inl ⟨program, next, rfl, rfl, hle, hlabels, rfl⟩

theorem loads_drawnFrom (label : NodeId) (sources : List (List Token)) :
    Loaded.DrawnFrom label (loads label sources) := by
  induction sources generalizing label with
  | nil => exact .nil
  | cons tokens rest ih =>
    rw [loads]
    rcases parseFrom_cases label tokens with ⟨program, next, hp, -, hdrawn⟩ | ⟨errors, next, hp, -, hle⟩
    · rw [hp]
      exact .cons hdrawn (ih next)
    · rw [hp]
      exact (ih next).mono hle

/-- In `a = b;` the label of the variable `a` is lost, in `c` without a semicolon that of `c`. -/
example : (loads 0 [scannedTokens (scan "a = b;"), scannedTokens (scan "c"),
    scannedTokens (scan "d;")]).map (fun l => Stmt.labelsAll l.program) = [[2, 1], [4]] := by
  decide +kernel

/-- With labels the same programs are read. -/
theorem map_loads (label : NodeId) (sources : List (List Token)) :
    (loads label sources).map (fun l => Stmt.relabelAll .bare l.program) =
      sources.filterMap fun tokens => (parseTokens tokens).toOption := by
  induction sources generalizing label with
  | nil => rfl
  | cons tokens rest ih =>
    rw [loads]
    rcases parseFrom_cases label tokens with ⟨program, next, hp, ht, -⟩ | ⟨errors, next, hp, ht, -⟩
    · rw [hp, List.filterMap_cons, ht]
      exact congrArg (List.cons _) (ih next)
    · rw [hp, List.filterMap_cons, ht]
      exact ih next

end Parser

/-- No statement in a program that tokens spell has a declaration as a branch, and every superclass in it
is named by an identifier among the tokens. -/
theorem parseTokens_formed {tokens : List Token} {program : List (Stmt Unit)}
    (h : parseTokens tokens = .ok program) : Stmt.Formed tokens (Stmt.insideAll program) := by
  rw [parseTokens_eq_read, Grammar.read] at h
  split at h
  · cases h
    exact .nil
  next final _ =>
    split at h
    next statements hq =>
      cases h
      exact (Derives.program_formed (Grammar.program_derives (beforeEnd tokens) hq)).mono
        (List.takeWhile_sublist _).subset
    · cases h

/-- The same holds of each of the programs that are read one after the other. -/
theorem Parser.loads_formed {label : NodeId} {sources : List (List Token)} {l : Loaded}
    (h : l ∈ loads label sources) :
    ∃ tokens ∈ sources, parseTokens tokens = .ok (Stmt.relabelAll .bare l.program) ∧
      Stmt.Formed tokens (Stmt.insideAll l.program) := by
  have hread : Stmt.relabelAll .bare l.program ∈
      sources.filterMap fun tokens => (parseTokens tokens).toOption :=
    map_loads label sources ▸ List.mem_map_of_mem h
  obtain ⟨tokens, htokens, hprogram⟩ := List.mem_filterMap.1 hread
  have hparse : parseTokens tokens = .ok (Stmt.relabelAll .bare l.program) := by
    cases hp : parseTokens tokens with
    | error errors =>
      rw [hp] at hprogram
      cases hprogram
    | ok program =>
      rw [hp] at hprogram
      exact congrArg Except.ok (Option.some.inj hprogram)
  refine ⟨tokens, htokens, hparse, Stmt.Formed.of_bare ?_⟩
  rw [← Stmt.insideAll_relabel]
  exact parseTokens_formed hparse

/-! ## Programs of a session -/

/-- The source of a request. -/
def Request.source : Request → String
  | .run _ _ source => source
  | .check source => source

namespace Session

/-- The program whose names are resolved, if a source spells one. -/
def resolved? (s : Session) (source : String) : Option Loaded :=
  (parse source).toOption.map (.ofProgram s.machine.nextUse)

/-- The programs whose names are resolved for requests. -/
def resolved (s : Session) : List Request → List Loaded
  | [] => []
  | r :: rest => (s.resolved? r.source).toList ++ (s.serve .none r).2.resolved rest

theorem resolved?_drawn {s : Session} {source : String} {l : Loaded}
    (h : s.resolved? source = some l) :
    l.Drawn s.machine.nextUse := by
  obtain ⟨program, -, rfl⟩ := Option.map_eq_some_iff.1 h
  have hnumbers := Stmt.numberAll_numbers program s.machine.nextUse
  refine ⟨hnumbers.le, ?_, rfl⟩
  rw [← Stmt.map_occurrencesAll]
  exact hnumbers.ids ▸ List.Subperm.refl _

/-- A source that is only looked at leaves behind what its program says of uses of names. -/
theorem inspect_distances (s : Session) (typeCheck : Bool) (source : String) :
    (s.inspect typeCheck source).machine.distances =
      ((s.resolved? source).toList.foldl Machine.load s.machine).distances := by
  unfold inspect resolved?
  cases parse source with
  | error failures => rfl
  | ok program =>
    dsimp only
    split <;> rfl

theorem runWith_distances (s : Session) (fuel : Nat) (source : String) :
    (s.runWith .none fuel source).2.machine.distances =
      ((s.resolved? source).toList.foldl Machine.load s.machine).distances := by
  cases hp : s.prepare s.typeCheck source with
  | error failures =>
    unfold runWith
    rw [hp]
    exact s.inspect_distances s.typeCheck source
  | ok lc =>
    obtain ⟨l, c⟩ := lc
    obtain ⟨program, hparse, rfl, -⟩ := load_ok_iff.1 (load_of_prepare hp).1
    have hrun := (s.machine.load (.ofProgram s.machine.nextUse program)).interpretWith_distances fuel
      (Loaded.ofProgram s.machine.nextUse program).program
    rw [runWith_prepared hp, resolved?, hparse]
    split
    next hr =>
      rw [hr] at hrun
      exact hrun
    next hr =>
      rw [hr] at hrun
      exact hrun

/-- All that is learned of uses of names for a request comes from its program, whether it runs or not. -/
theorem serve_distances (s : Session) (r : Request) :
    (s.serve .none r).2.machine.distances =
      ((s.resolved? r.source).toList.foldl Machine.load s.machine).distances := by
  cases r with
  | check source => exact s.inspect_distances true source
  | run clock fuel source =>
    have hclock : (s.setClock clock).machine.distances = s.machine.distances := rfl
    exact ((s.setClock clock).runWith_distances fuel source).trans
      (Machine.foldl_load_distances hclock (s.resolved? source).toList)

theorem replay_distances (s : Session) (requests : List Request) :
    (s.replay .none requests).2.machine.distances =
      ((s.resolved requests).foldl Machine.load s.machine).distances := by
  induction requests generalizing s with
  | nil => rfl
  | cons r rest ih =>
    rw [resolved, List.foldl_append]
    exact (ih _).trans (Machine.foldl_load_distances (s.serve_distances r) _)

/-- The next number after a request is that after its program. -/
theorem serve_nextUse (s : Session) (r : Request) :
    (s.serve .none r).2.machine.nextUse = (s.resolved? r.source).elim s.machine.nextUse Loaded.next := by
  refine (congrArg Array.size (s.serve_distances r)).trans ?_
  cases hl : s.resolved? r.source with
  | none => rfl
  | some l =>
    show (s.machine.load l).nextUse = l.next
    rw [Machine.load, Machine.nextUse_note, Machine.nextUse_reserve _ (resolved?_drawn hl).le]

/-- A session numbers the uses of names of each program after those of the programs before it. -/
theorem resolved_drawnFrom (s : Session) (requests : List Request) :
    Loaded.DrawnFrom s.machine.nextUse (s.resolved requests) := by
  induction requests generalizing s with
  | nil => exact .nil
  | cons r rest ih =>
    have hrest := ih (s.serve .none r).2
    rw [serve_nextUse] at hrest
    rw [resolved]
    cases hl : s.resolved? r.source with
    | none =>
      rw [hl] at hrest
      exact hrest
    | some l =>
      rw [hl] at hrest
      exact .cons (resolved?_drawn hl) hrest

/-- What a session knows of a use of a name stays, whatever is asked of it later. -/
theorem distance?_replay_append (s : Session) (earlier later : List Request) {id : NodeId}
    (hid : id < (s.replay .none earlier).2.machine.nextUse) :
    (s.replay .none (earlier ++ later)).2.machine.distance? id =
      (s.replay .none earlier).2.machine.distance? id := by
  rw [replay_append]
  generalize (s.replay .none earlier).2 = t at hid
  have hdrawn := t.resolved_drawnFrom later
  refine (congrArg (fun ds => ds[id]?.join) (t.replay_distances later)).trans ?_
  exact hdrawn.distance?_foldl_load t.machine fun l hl hmem => Nat.not_lt.2 (hdrawn.le l hl id hmem) hid

/-- The uses of names of programs that have been resolved are among those that the machine knows. -/
theorem lt_nextUse_replay (s : Session) (requests : List Request) :
    ∀ l ∈ s.resolved requests, ∀ id ∈ Stmt.labelsAll l.program,
      id < (s.replay .none requests).2.machine.nextUse := by
  intro l hl id hid
  refine Nat.lt_of_lt_of_eq ((s.resolved_drawnFrom requests).lt_nextUse s.machine l hl id hid) ?_
  exact (congrArg Array.size (s.replay_distances requests)).symm

end Session

/-- In all programs that are read in one process the uses of names have different labels; no branch of an
`if` and no body of a loop is a declaration; every superclass is a variable, one of the uses of its program;
and whichever of the programs go through a resolver one after the other, it notes each use at most once, so
that a later one changes nothing for an earlier use. A session uses numbers in the same way: whatever is
asked of it, what it knows of a use stays. -/
theorem uses_labelled_once :
    (∀ (label : NodeId) (sources : List (List Token)),
      (Parser.loads label sources).map (fun l => Stmt.relabelAll .bare l.program) =
          sources.filterMap (fun tokens => (parseTokens tokens).toOption) ∧
        (∀ l ∈ Parser.loads label sources,
          (∃ tokens ∈ sources, parseTokens tokens = .ok (Stmt.relabelAll .bare l.program) ∧
            Stmt.Formed tokens (Stmt.insideAll l.program)) ∧
            ∀ s ∈ Stmt.insideAll l.program, ∀ superclass, s.superclass? = some superclass →
              ⟨.variable, superclass.id, superclass.name⟩ ∈ Stmt.occurrencesAll l.program) ∧
        ∀ resolved, resolved.Sublist (Parser.loads label sources) → Loaded.UsedOnce resolved) ∧
      ∀ (s : Session) (earlier later : List Request),
        Loaded.UsedOnce (s.resolved (earlier ++ later)) ∧
          (∀ l ∈ s.resolved earlier, ∀ o ∈ Stmt.occurrencesAll l.program,
            o.id < (s.replay .none earlier).2.machine.nextUse) ∧
          ∀ id < (s.replay .none earlier).2.machine.nextUse,
            (s.replay .none (earlier ++ later)).2.machine.distance? id =
              (s.replay .none earlier).2.machine.distance? id := by
  refine ⟨fun label sources => ⟨Parser.map_loads label sources, fun l hl => ⟨?_, ?_⟩, ?_⟩,
    fun s earlier later => ⟨?_, ?_, ?_⟩⟩
  · exact Parser.loads_formed hl
  · intro s hs superclass hsuper
    exact Stmt.occurrencesAll_subset l.program s hs (Stmt.superclass?_mem hsuper)
  · intro resolved hsub
    exact ((Parser.loads_drawnFrom label sources).sublist hsub).usedOnce
  · exact (s.resolved_drawnFrom (earlier ++ later)).usedOnce
  · intro l hl o ho
    refine s.lt_nextUse_replay earlier l hl o.id ?_
    exact Stmt.map_occurrencesAll l.program ▸ List.mem_map_of_mem ho
  · intro id hid
    exact s.distance?_replay_append earlier later hid

end ClassScript
