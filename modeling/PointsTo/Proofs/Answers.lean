import PointsTo.Cli
import PointsTo.Proofs.StaticOwners

namespace PointsTo
namespace Text

def natural? (cs : List Char) : Option Nat :=
  if cs ≠ [] ∧ cs.all Char.isDigit then some (Nat.ofDigitChars 10 cs 0) else none

def integer? : List Char → Option Int
  | '-' :: cs => (natural? cs).map fun n => -n
  | cs        => (natural? cs).map fun n => n

theorem natural?_repr (n : Nat) : natural? n.repr.toList = some n := by
  have digits : ∀ c ∈ Nat.toDigits 10 n, c.isDigit = true := fun c hc =>
    Nat.isDigit_of_mem_toDigits (by decide) (by decide) hc
  rw [Nat.toList_repr, natural?, if_pos ⟨Nat.toDigits_ne_nil, List.all_eq_true.mpr digits⟩,
    Nat.ofDigitChars_ten_toDigits]

theorem integer?_toString (n : Int) : integer? (toString n).toList = some n := by
  cases n
  case ofNat n =>
    show integer? n.repr.toList = _
    have number := natural?_repr n
    unfold integer?
    split
    case h_1 cs split =>
      rw [split] at number
      simp [natural?] at number
    case h_2 =>
      rw [number]
      rfl
  case negSucc n =>
    show integer? ("-" ++ (n + 1).repr).toList = _
    have number := natural?_repr (n + 1)
    have front : ("-" ++ (n + 1).repr).toList = '-' :: (n + 1).repr.toList := by simp
    rw [front, integer?, number]
    rfl

-- A number has no characters other than digits and the sign.
theorem not_mem_toString {c : Char} (digit : c.isDigit = false) (sign : c ≠ '-') (n : Int) :
    c ∉ (toString n).toList := by
  have unsigned (n : Nat) : c ∉ n.repr.toList := fun h => by
    have := Nat.isDigit_of_mem_toDigits (by decide) (by decide) (Nat.toList_repr ▸ h)
    simp [digit] at this
  cases n
  case ofNat n   => exact unsigned n
  case negSucc n =>
    show c ∉ ("-" ++ (n + 1).repr).toList
    simpa [sign] using unsigned (n + 1)

theorem not_mem_intercalate {c : Char} {sep : List Char} {words : List (List Char)}
    (hs : c ∉ sep) (hw : ∀ word ∈ words, c ∉ word) : c ∉ sep.intercalate words := by
  induction words
  case nil => simp
  case cons word rest hi =>
    cases rest
    case nil => simpa using hw
    case cons => simp_all [List.intercalate_cons_cons]

-- Lines with an end are the pieces between the ends, with nothing behind the last one.
theorem flatMap_ended (lines : List (List Char)) :
    lines.flatMap (· ++ ['\n']) = ['\n'].intercalate (lines ++ [[]]) := by
  induction lines
  case nil => rfl
  case cons line rest hi =>
    rw [List.flatMap_cons, hi, List.cons_append, List.intercalate_cons_of_ne_nil (by simp)]

-- What is written piece by piece is read piece by piece.
theorem mapM_map_eq_some {β γ : Type} {write : β → γ} {read? : γ → Option β}
    (h : ∀ b, read? (write b) = some b) (bs : List β) : (bs.map write).mapM read? = some bs := by
  rw [List.mapM_map, show read? ∘ write = pure from funext h, List.mapM_pure, List.map_id']
  rfl

end Text

theorem Objects.exists_query?_iff {o : Objects} {k : Int} :
    (∃ v, o.query? k = some v) ↔ k ∈ o.queryIds := by
  rw [queryIds, ObjectSet.mem_toList, ObjectSet.mem_ofList, ← Option.isSome_iff_exists, query?,
    Option.isSome_map, List.findRev?_eq_find?_reverse]
  simp

namespace Analysis

section Answers

variable {f : Facts} {o : Objects} {k : Int} {ids : List Int}

theorem keys_answers : (f.answers o).map Prod.fst = o.queryIds := by
  rw [Facts.answers, List.map_map]
  exact (List.map_congr_left fun _ _ => rfl).trans (List.map_id _)

theorem mem_answers : (k, ids) ∈ f.answers o ↔
    ∃ v, o.query? k = some v ∧ ids = (f.points.get v).observable := by
  simp only [Facts.answers, List.mem_map, Prod.mk.injEq]
  constructor
  case mp =>
    rintro ⟨k, hk, rfl, rfl⟩
    have ⟨v, hv⟩ := Objects.exists_query?_iff.mpr hk
    exact ⟨v, hv, by rw [hv]⟩
  case mpr =>
    rintro ⟨v, hv, rfl⟩
    exact ⟨k, Objects.exists_query?_iff.mp ⟨v, hv⟩, rfl, by rw [hv]⟩

end Answers

namespace Result

variable {r : Result} {query : Int × List Int}

-- The words behind the colon of a line. There is an empty one if there are no objects.
def objectWords (ids : List Int) : List (List Char) :=
  if ids = [] then [[]] else ids.map fun id => (toString id).toList

def words (query : Int × List Int) : List (List Char) :=
  (toString query.1).toList :: [':'] :: objectWords query.2

def line (query : Int × List Int) : List Char :=
  [' '].intercalate (words query)

def readObjects? (words : List (List Char)) : Option (List Int) :=
  if words = [[]] then some [] else words.mapM Text.integer?

def readLine? (line : List Char) : Option (Int × List Int) :=
  match line.splitOn ' ' with
  | id :: [':'] :: objects => do return (← Text.integer? id, ← readObjects? objects)
  | _ => none

-- The queries and their answers, from the lines of a text. Every line has an end.
def read? (text : String) : Option (List (Int × List Int)) :=
  let lines := text.toList.splitOn '\n'
  if lines.getLast? = some [] then lines.dropLast.mapM readLine? else none

theorem toList_queryLine : (queryLine query).toList = line query ++ ['\n'] := by
  obtain ⟨k, ids⟩ := query
  have joined : (ObjectSet.joinIds ids).toList =
      [' '].intercalate (ids.map fun id => (toString id).toList) := by
    rw [ObjectSet.joinIds, String.toList_intercalate, List.map_map]
    rfl
  cases ids
  case nil         => simp [queryLine, line, words, objectWords, ObjectSet.joinIds]
  case cons id ids => simp [queryLine, line, words, objectWords, joined]

theorem not_mem_words {c : Char} (digit : c.isDigit = false) (sign : c ≠ '-') (colon : c ≠ ':') :
    ∀ word ∈ words query, c ∉ word := by
  have objects : ∀ word ∈ objectWords query.2, c ∉ word := by
    unfold objectWords
    split
    case isTrue  => simp
    case isFalse => simpa using fun id _ => Text.not_mem_toString digit sign id
  simpa [words, colon] using ⟨Text.not_mem_toString digit sign query.1, objects⟩

theorem splitOn_line : (line query).splitOn ' ' = words query :=
  List.splitOn_intercalate ' ' (not_mem_words (by decide) (by decide) (by decide)) (by simp [words])

theorem readObjects?_objectWords (ids : List Int) : readObjects? (objectWords ids) = some ids := by
  unfold objectWords readObjects?
  split
  case isTrue none =>
    subst none
    rfl
  case isFalse =>
    have visible : ids.map (fun id => (toString id).toList) ≠ [[]] := by
      intro h
      have ⟨id, _, empty⟩ := List.mem_map.mp (h ▸ List.mem_singleton_self _)
      have number := Text.integer?_toString id
      rw [empty] at number
      contradiction
    rw [if_neg visible, Text.mapM_map_eq_some Text.integer?_toString]

theorem readLine?_line : readLine? (line query) = some query := by
  rw [readLine?, splitOn_line, words]
  simp only [Text.integer?_toString, readObjects?_objectWords]
  rfl

theorem splitOn_text : r.text.toList.splitOn '\n' = r.queries.map line ++ [[]] := by
  have ended : r.text.toList = ['\n'].intercalate (r.queries.map line ++ [[]]) := by
    rw [← Text.flatMap_ended, text, String.toList_join, List.flatMap_map, List.flatMap_map]
    exact List.flatMap_congr fun query _ => toList_queryLine
  have unbroken : ∀ l ∈ r.queries.map line ++ [[]], '\n' ∉ l := by
    simp only [List.mem_append, List.mem_map, List.mem_singleton]
    rintro _ (⟨query, _, rfl⟩ | rfl)
    · exact Text.not_mem_intercalate (by decide)
        (not_mem_words (by decide) (by decide) (by decide))
    · exact List.not_mem_nil
  rw [ended, List.splitOn_intercalate '\n' unbroken (by simp)]

theorem read?_text : read? r.text = some r.queries := by
  have lines := Text.mapM_map_eq_some (fun _ => readLine?_line) r.queries
  rw [read?, splitOn_text]
  simp [lines]

-- The bytes are counted as they are written.
theorem written_eq : r.written = (r.text, r.text.utf8ByteSize) := by
  unfold written text
  induction r.queries using List.reverseRecOn
  case nil => rfl
  case append_singleton queries query hi =>
    rw [List.foldl_append, hi]
    simp [String.join_append, String.utf8ByteSize_append]

-- What a result says about the queries of the objects, and how this is written.
structure Reports (r : Result) (o : Objects) : Prop where
  keys      : ∀ k, k ∈ r.queries.map Prod.fst ↔ ∃ v, o.query? k = some v
  ascending : (r.queries.map Prod.fst).Pairwise (· < ·)
  answers   : ∀ k ids, (k, ids) ∈ r.queries → ids.Pairwise (· < ·) ∧
    ∃ v, o.query? k = some v ∧ ∀ x, x ∈ ids ↔ x ∈ r.facts.points.get v ∧ 0 < x
  statics   : ∀ k ids, (k, ids) ∈ r.queries → ∀ c, Slot.staticOwner c ∉ ids
  -- There is one line for each query, in their order.
  lines     : ∃ lines, r.written.1.toList.splitOn '\n' = lines ++ [[]] ∧
    lines.map readLine? = r.queries.map some
  decoded   : read? r.written.1 = some r.queries
  bytes     : r.written.2 = r.written.1.utf8ByteSize
  printed   : String.join (r.queries.map (Cli.queryLine false)) = r.written.1

-- Without colours, the command line tool has the same lines.
theorem join_queryLine : String.join (r.queries.map (Cli.queryLine false)) = r.written.1 := by
  have same (query : Int × List Int) : Cli.queryLine false query = queryLine query := rfl
  rw [written_eq, text, funext same]

theorem reports_run (p : Problem) : p.run.Reports p.scene.objects := by
  have keys : p.run.queries.map Prod.fst = p.scene.objects.queryIds := keys_answers
  constructor
  case keys =>
    intro k
    rw [keys, Objects.exists_query?_iff]
  case ascending =>
    rw [keys]
    exact ObjectSet.sorted _
  case answers =>
    intro k ids h
    obtain ⟨v, hv, rfl⟩ := mem_answers.mp h
    exact ⟨(ObjectSet.sorted _).filter _, v, hv, fun x => ObjectSet.mem_observable⟩
  case statics =>
    intro k ids h c
    obtain ⟨v, _, rfl⟩ := mem_answers.mp h
    exact Slot.staticOwner_not_mem_observable c _
  case lines =>
    refine ⟨p.run.queries.map line, ?_, ?_⟩
    · rw [written_eq, splitOn_text]
    · rw [List.map_map]
      exact List.map_congr_left fun _ _ => readLine?_line
  case decoded =>
    rw [written_eq]
    exact read?_text
  case bytes   => rw [written_eq]
  case printed => exact join_queryLine

end Result

section Printed

variable {o : Cli.Options} {files : String → Option String} {packages : Option Ssa.Program}
  {c : Config} {l : Lowering.Result} {r : Result}

-- A run gets to the end of the analysis, with these results on the way.
structure Completes (o : Cli.Options) (files : String → Option String)
    (packages : Option Ssa.Program) (l : Lowering.Result) (r : Result) : Prop where
  asked  : o.queries.isEmpty = false
  stages : ∃ c ssa, o.configuration files = .ok c ∧ packages = some ssa ∧
    Lowering.lower ssa c.markers = .ok l ∧ analyze (Cli.settings c l) = .ok r

-- The answers to the queries stand between the listing and the call graph, if these are asked for.
def printed (o : Cli.Options) (l : Lowering.Result) (r : Result) : String :=
  (if o.listing then l.program.listing else "") ++ r.written.1 ++
    if o.callGraph then Cli.callGraphText false r.graph else ""

theorem exists_analyze_of_report {entries : List Log.Entry}
    (done : (Cli.report false o c entries l).exit = 0) :
    ∃ r, analyze (Cli.settings c l) = .ok r := by
  unfold Cli.report at done
  dsimp only at done
  split at done
  case h_1      => contradiction
  case h_2 r hr => exact ⟨r, hr⟩

theorem report_of_analyze (h : analyze (Cli.settings c l) = .ok r) (entries : List Log.Entry) :
    (Cli.report false o c entries l).exit = 0 ∧
      (Cli.report false o c entries l).stdout = printed o l r := by
  simp only [Cli.report, h, printed, Result.join_queryLine, and_self]

-- A run that ends well has got past every check.
theorem exists_completes (done : (Cli.run false o files packages).exit = 0) :
    ∃ l r, Completes o files packages l r := by
  unfold Cli.run at done
  dsimp only at done
  split at done
  case h_1 => split at done <;> contradiction
  case h_2 c hc =>
    split at done
    case isTrue => contradiction
    case isFalse some =>
      split at done
      case h_1 => contradiction
      case h_2 ssa =>
        split at done
        case h_1 => contradiction
        case h_2 l hl =>
          have ⟨r, hr⟩ := exists_analyze_of_report done
          exact ⟨l, r, by simpa using some, c, ssa, hc, rfl, hl, hr⟩

theorem Completes.run (h : Completes o files packages l r) :
    (Cli.run false o files packages).exit = 0 ∧
      (Cli.run false o files packages).stdout = printed o l r := by
  obtain ⟨asked, c, ssa, hc, rfl, hl, hr⟩ := h
  simp only [Cli.run, hc, asked, hl]
  exact report_of_analyze hr _

end Printed

-- The report on the queries is faithful, and the command line tool prints the same text.
theorem queries_reported :
    (∀ s r, analyze s = .ok r → ∃ o, s.objects = some o ∧ r.Reports o) ∧
    ∀ o files packages,
      ((Cli.run false o files packages).exit = 0 ↔ ∃ l r, Completes o files packages l r) ∧
      ∀ l r, Completes o files packages l r →
        (Cli.run false o files packages).stdout = printed o l r := by
  refine ⟨fun s r done => ?reported,
    fun o files packages => ⟨⟨exists_completes, ?completed⟩, ?output⟩⟩
  case reported =>
    obtain ⟨p, valid, rfl⟩ := problem_of_analyze done
    obtain ⟨_, o, _, ho, rfl⟩ := Settings.problem_eq valid
    exact ⟨o, ho, Result.reports_run _⟩
  case completed => exact fun ⟨_, _, completes⟩ => completes.run.left
  case output => exact fun _ _ completes => completes.run.right

namespace Sample

-- One query asks about something that is never assigned.
def asked : Objects :=
  { objects with queries := [(3, found), (-7, unknown)] }

-- A package with a function that returns at once.
def returning : Ssa.Program where
  roots     := [0]
  packages  := [⟨"main", "main", [.function "main" 0]⟩]
  types     := []
  functions := [
    { name        := "main"
      text        := "main.main"
      pkg         := some 0
      isSynthetic := false
      isNested    := false
      hasBlocks   := true
      recv        := none
      signature   := []
      blocks      := [[.ret []]] }]
  values    := []

theorem asked_reported :
    analyze (settingsOf storing asked) = .ok (problemOf storing asked).run ∧
      (problemOf storing asked).run.Reports asked ∧
      (problemOf storing asked).run.queries = [(-7, []), (3, [2])] ∧
      ∃ l r, Completes { queries := ["."] } (fun _ => none) (some returning) l r ∧
        (Cli.run false { queries := ["."] } (fun _ => none) (some returning)).stdout =
          printed { queries := ["."] } l r := by
  have ⟨o, ho, reports⟩ := queries_reported.left _ _ (analyze_settingsOf storing asked)
  obtain rfl : asked = o := Option.some.inj ho
  have ⟨ends, prints⟩ := queries_reported.right { queries := ["."] } (fun _ => none)
    (some returning)
  have ⟨l, r, completes⟩ := ends.mp (by decide +kernel)
  exact ⟨rfl, reports, by decide +kernel, l, r, completes, prints l r completes⟩

end Sample
end Analysis
end PointsTo
