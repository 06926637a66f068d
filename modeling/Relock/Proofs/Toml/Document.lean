import Relock.Proofs.Toml.Layout
import Relock.Toml.Document

/-!
# A generated document is read back

What the statements of a generated document add up to: a table with its settings, and with its
sections as an array of tables behind them (`Layout.table`). Every key must be given once, so the
document must be `Layout.Sound`. Then it is read as that table, whatever comments stand before it
(`parse?_render`).

While a document is under construction its last section grows (`foldlM_pairs_section`), and the
settings before the sections stay as they are.
-/

namespace Relock.Toml

namespace Layout

/-- The value of a setting. -/
def toml : Setting → Toml
  | .text value => .string value
  | .list values => .array (values.map .string)

/-- The entries of the table that some settings make up. -/
def tomls (settings : Settings) : List (String × Toml) :=
  settings.map fun (key, v) => (key, toml v)

/-- The entries of the table that a document describes. -/
def table (d : Layout) : List (String × Toml) :=
  tomls d.settings ++
    if d.sections.isEmpty then []
    else [(d.sectionName, .array (d.sections.map fun s => .table (tomls s)))]

/-- A document in which every key of a table is there once and needs no quotes. -/
structure Sound (d : Layout) : Prop extends Bare d where
  nodup : (d.settings.map (·.1)).Nodup
  name_notMem : d.sections ≠ [] → d.sectionName ∉ d.settings.map (·.1)
  nodups : ∀ s ∈ d.sections, (s.map (·.1)).Nodup

/-- A document is sound if its keys are some of those that a document may have. -/
theorem sound_of_sublist {d : Layout} {top below : List String}
    (htop : (d.settings.map (·.1)).Sublist top)
    (hbelow : ∀ s ∈ d.sections, (s.map (·.1)).Sublist below)
    (hbare : ∀ key ∈ d.sectionName :: (top ++ below), IsBare key) (hnodup : top.Nodup)
    (hname : d.sections ≠ [] → d.sectionName ∉ top) (hnodups : below.Nodup) : d.Sound where
  settings key hkey :=
    hbare key (List.mem_cons_of_mem _ (List.mem_append_left _ (htop.mem hkey)))
  sectionName := hbare d.sectionName List.mem_cons_self
  sections s hs key hkey :=
    hbare key (List.mem_cons_of_mem _ (List.mem_append_right _ ((hbelow s hs).mem hkey)))
  nodup := htop.nodup hnodup
  name_notMem hsections hmem := hname hsections (htop.mem hmem)
  nodups s hs := (hbelow s hs).nodup hnodups

def entries (settings : Settings) : Entries :=
  settings.map fun (key, v) => (key, .value (toml v))

/-- The entries of the sections under construction, of which there are none at first. -/
def sectionEntries (name : String) (sections : List Entries) : Entries :=
  if sections.isEmpty then [] else [(name, .tables sections)]

end Layout

open Layout (item pairs toml tomls entries sectionEntries sectionStatements)

/-! ## Values -/

theorem toValues?_texts (values : List String) :
    Item.toValues? (values.map fun value => .plain (.string value)) =
      some (values.map .string) := by
  induction values with
  | nil => rfl
  | cons value values ih =>
      rw [List.map_cons, Item.toValues?, ih]
      rfl

theorem toValue?_item (v : Setting) : (item v).toValue? = some (toml v) := by
  cases v with
  | text value => rfl
  | list values =>
      show (Item.toValues? _).map Toml.array = _
      rw [toValues?_texts]
      rfl

theorem toValues_append (front back : Entries) :
    Node.toValues (front ++ back) = Node.toValues front ++ Node.toValues back := by
  induction front with
  | nil => rfl
  | cons entry front ih =>
      obtain ⟨key, node⟩ := entry
      rw [List.cons_append, Node.toValues, Node.toValues, ih, List.cons_append]

theorem toValues_entries (settings : Settings) :
    Node.toValues (entries settings) = tomls settings := by
  induction settings with
  | nil => rfl
  | cons entry settings ih =>
      obtain ⟨key, v⟩ := entry
      show (key, Node.toValue (.value (toml v))) :: Node.toValues (entries settings) = _
      rw [ih]
      rfl

theorem toTables_entries (sections : List Settings) :
    Node.toTables (sections.map entries) = sections.map fun s => .table (tomls s) := by
  induction sections with
  | nil => rfl
  | cons s sections ih =>
      rw [List.map_cons, Node.toTables, toValues_entries, ih, List.map_cons]

/-! ## Entries -/

theorem lookup_eq_none_of_notMem {key : String} {es : Entries} (h : key ∉ es.map (·.1)) :
    es.lookup key = none := by
  rw [List.lookup_eq_none_iff]
  intro entry hentry
  have hne : key ≠ entry.1 := fun heq => h (heq ▸ List.mem_map_of_mem hentry)
  simpa using hne

theorem lookup_append_singleton {key : String} {es : Entries} (h : key ∉ es.map (·.1))
    (node : Node) : (es ++ [(key, node)]).lookup key = some node := by
  rw [List.lookup_append, lookup_eq_none_of_notMem h, Option.none_or]
  exact List.lookup_cons_self

theorem set_append_singleton {key : String} {es : Entries} (h : key ∉ es.map (·.1))
    (node node' : Node) :
    Entries.set key node' (es ++ [(key, node)]) = es ++ [(key, node')] := by
  induction es with
  | nil => simp [Entries.set]
  | cons entry es ih =>
      obtain ⟨hne, hothers⟩ : key ≠ entry.1 ∧ key ∉ es.map (·.1) := by simpa using h
      rw [List.cons_append, Entries.set, if_neg (Ne.symm hne), ih hothers, List.cons_append]

theorem keys_entries (settings : Settings) :
    (entries settings).map (·.1) = settings.map (·.1) := by
  rw [entries, List.map_map]
  rfl

theorem assign_new {key : String} {es : Entries} (h : key ∉ es.map (·.1)) (value : Toml) :
    Entries.assign value [key] es = some (es ++ [(key, .value value)]) := by
  rw [Entries.assign, lookup_eq_none_of_notMem h]

/-- A change inside the last element of an array of tables. -/
theorem within_last {f : Entries → Option Entries} {name : String} {es last last' : Entries}
    {elements : List Entries} (h : name ∉ es.map (·.1)) (hf : f last = some last') :
    Entries.within f [name] (es ++ [(name, .tables (elements ++ [last]))]) =
      some (es ++ [(name, .tables (elements ++ [last']))]) := by
  have hchange : Entries.changeLast (Entries.within f []) (elements ++ [last]) =
      some (elements ++ [last']) := by
    unfold Entries.changeLast
    rw [List.getLast?_concat, List.dropLast_concat]
    show ((f last).bind _ : Option _) = _
    rw [hf]
    rfl
  rw [Entries.within, lookup_append_singleton h]
  dsimp only
  rw [hchange]
  dsimp only [Option.bind_eq_bind, Option.bind_some]
  rw [set_append_singleton h]
  rfl

/-! ## Statements -/

/-- A pair gives its value to its key in the table of the header. -/
theorem add?_pair {key : String} {v : Setting} {header : Key} {es es' : Entries}
    (h : Entries.within (Entries.assign (toml v) [key]) header es = some es') :
    Document.add? ⟨header, es⟩ (.pair [key] (item v)) = some ⟨header, es'⟩ := by
  show ((item v).toValue?.bind _ : Option _) = _
  rw [toValue?_item]
  show ((Entries.within (Entries.assign (toml v) [key]) header es).bind _ : Option _) = _
  rw [h]
  rfl

/-- A header adds a section without entries. -/
theorem add?_elementHeader {name : String} {es : Entries} (h : name ∉ es.map (·.1))
    (sections : List Entries) (header : Key) :
    Document.add? ⟨header, es ++ sectionEntries name sections⟩ (.elementHeader [name]) =
      some ⟨[name], es ++ [(name, .tables (sections ++ [[]]))]⟩ := by
  have hopen : Entries.openElement name (es ++ sectionEntries name sections) =
      some (es ++ [(name, .tables (sections ++ [[]]))]) := by
    unfold Entries.openElement sectionEntries
    cases sections with
    | nil =>
        rw [if_pos (by rfl), List.append_nil, lookup_eq_none_of_notMem h]
        rfl
    | cons s sections =>
        rw [if_neg (by simp), lookup_append_singleton h]
        dsimp only
        rw [set_append_singleton h]
  show ((Entries.openElement name (es ++ sectionEntries name sections)).bind _ : Option _) = _
  rw [hopen]
  rfl

/-- The pairs before all headers add the settings. -/
theorem foldlM_pairs {es : Entries} {settings : Settings}
    (h : (es.map (·.1) ++ settings.map (·.1)).Nodup) :
    (pairs settings).foldlM Document.add? ⟨[], es⟩ = some ⟨[], es ++ entries settings⟩ := by
  induction settings generalizing es with
  | nil => rw [show entries [] = [] from rfl, List.append_nil]; rfl
  | cons entry settings ih =>
      obtain ⟨key, v⟩ := entry
      have hnew : key ∉ es.map (·.1) := by
        rw [List.nodup_append] at h
        exact fun hmem => h.2.2 key hmem key List.mem_cons_self rfl
      have hpair : Document.add? ⟨[], es⟩ (.pair [key] (item v)) = _ :=
        add?_pair (assign_new hnew (toml v))
      show ((Document.add? ⟨[], es⟩ (.pair [key] (item v))).bind fun d =>
        (pairs settings).foldlM Document.add? d) = _
      rw [hpair, Option.bind_some, ih (by simpa using h), List.append_assoc]
      rfl

/-- The pairs below a header add the settings of the last section. -/
theorem foldlM_pairs_section {name : String} {es last : Entries} {sections : List Entries}
    {settings : Settings} (hname : name ∉ es.map (·.1))
    (h : (last.map (·.1) ++ settings.map (·.1)).Nodup) :
    (pairs settings).foldlM Document.add?
        ⟨[name], es ++ [(name, .tables (sections ++ [last]))]⟩ =
      some ⟨[name], es ++ [(name, .tables (sections ++ [last ++ entries settings]))]⟩ := by
  induction settings generalizing last with
  | nil => rw [show entries [] = [] from rfl, List.append_nil]; rfl
  | cons entry settings ih =>
      obtain ⟨key, v⟩ := entry
      have hnew : key ∉ last.map (·.1) := by
        rw [List.nodup_append] at h
        exact fun hmem => h.2.2 key hmem key List.mem_cons_self rfl
      have hpair : Document.add? ⟨[name], es ++ [(name, .tables (sections ++ [last]))]⟩
          (.pair [key] (item v)) = _ :=
        add?_pair (within_last hname (assign_new hnew (toml v)))
      show ((Document.add? ⟨[name], es ++ [(name, .tables (sections ++ [last]))]⟩
        (.pair [key] (item v))).bind fun d => (pairs settings).foldlM Document.add? d) = _
      rw [hpair, Option.bind_some, ih (by simpa using h), List.append_assoc]
      rfl

theorem sectionEntries_concat (name : String) (sections : List Entries) (s : Entries) :
    sectionEntries name (sections ++ [s]) = [(name, .tables (sections ++ [s]))] := by
  unfold sectionEntries
  rw [if_neg (by simp)]

/-- The sections are added one after the other. -/
theorem exists_foldlM_sections {name : String} {es : Entries} {sections : List Settings}
    (hname : name ∉ es.map (·.1)) (h : ∀ s ∈ sections, (s.map (·.1)).Nodup) (before : List Entries)
    (header : Key) :
    ∃ header', (sections.flatMap (sectionStatements name)).foldlM Document.add?
        ⟨header, es ++ sectionEntries name before⟩ =
      some ⟨header', es ++ sectionEntries name (before ++ sections.map entries)⟩ := by
  induction sections generalizing before header with
  | nil => exact ⟨header, by rw [List.map_nil, List.append_nil]; rfl⟩
  | cons s sections ih =>
      have hsection : (pairs s).foldlM Document.add?
          ⟨[name], es ++ [(name, .tables (before ++ [[]]))]⟩ =
            some ⟨[name], es ++ sectionEntries name (before ++ [entries s])⟩ := by
        rw [sectionEntries_concat]
        exact foldlM_pairs_section hname (h s List.mem_cons_self)
      obtain ⟨header', hothers⟩ := ih (fun s hs => h s (List.mem_cons_of_mem _ hs))
        (before ++ [entries s]) [name]
      refine ⟨header', ?_⟩
      rw [List.append_assoc, List.singleton_append] at hothers
      rw [List.flatMap_cons, List.foldlM_append, sectionStatements, List.foldlM_cons,
        add?_elementHeader hname before header]
      show (((pairs s).foldlM Document.add? _).bind _ : Option _) = _
      rw [hsection]
      exact hothers

/-- The statements of a document add up to its table. -/
theorem exists_foldlM_statements {d : Layout} (h : d.Sound) :
    ∃ header es, d.statements.foldlM Document.add? .empty = some ⟨header, es⟩ ∧
      Node.toValues es = d.table := by
  have hsettings : (pairs d.settings).foldlM Document.add? .empty =
      some ⟨[], entries d.settings⟩ := foldlM_pairs h.nodup
  cases hempty : d.sections with
  | nil =>
      refine ⟨[], entries d.settings, ?_, ?_⟩
      · rw [Layout.statements, hempty, List.flatMap_nil, List.append_nil]
        exact hsettings
      · rw [toValues_entries, Layout.table, hempty, List.isEmpty_nil, if_pos rfl, List.append_nil]
  | cons s sections =>
      -- the sections have an entry of their own, behind those of the settings
      have hname : d.sectionName ∉ (entries d.settings).map (·.1) := by
        rw [keys_entries]
        exact h.name_notMem (by simp [hempty])
      obtain ⟨header, hsections⟩ := exists_foldlM_sections hname h.nodups [] []
      rw [List.nil_append] at hsections
      refine ⟨header, entries d.settings ++
        sectionEntries d.sectionName (d.sections.map entries), ?_, ?_⟩
      · rw [Layout.statements, List.foldlM_append, hsettings]
        show (d.sections.flatMap (sectionStatements d.sectionName)).foldlM Document.add?
          ⟨[], entries d.settings⟩ = _
        rw [← hsections]
        show _ = List.foldlM Document.add? ⟨[], entries d.settings ++ []⟩ _
        rw [List.append_nil]
      · rw [toValues_append, toValues_entries, Layout.table, if_neg (by simp [hempty])]
        unfold sectionEntries
        rw [if_neg (by simp [hempty])]
        show _ ++ [(d.sectionName, Toml.array (Node.toTables (d.sections.map entries)))] = _
        rw [toTables_entries]

/-- A generated document is read back, with the comments that stand before it. -/
theorem parse?_render {d : Layout} (h : d.Sound) {front : String}
    (hfront : Statement.Says front.toList []) (hcomment : front.toList.head? = some '#') :
    parse? (front ++ d.render) = some (.table d.table) := by
  have hsays : Statement.Says (front ++ d.render).toList d.statements := by
    rw [Layout.render, String.toList_append, String.toList_ofList]
    exact hfront.append (Statement.says_layout h.toBare)
  have hmark : (front ++ d.render).toList.head? ≠ some byteOrderMark := by
    rw [String.toList_append, List.head?_append, hcomment, Option.some_or]
    decide
  obtain ⟨header, es, hfold, htable⟩ := exists_foldlM_statements h
  unfold parse?
  rw [statements?_eq_some hsays hmark]
  show ((d.statements.foldlM Document.add? .empty).bind _ : Option _) = _
  rw [hfold]
  show some (Toml.table (Node.toValues es)) = _
  rw [htable]

end Relock.Toml
