import UpaScripts.LogParsing.AverageDuplicates

/-!
# `UpaScripts.LogParsing.CompileOuterProvingTimes`: `compile_outer_proving_times`

`compile_outer_proving_times(input_csv, output_csv)` reads the combined table. Its reading
loop files each `UBV` and `Keccak` row in a dict under its configuration, the last row of a
configuration winning, and keeps the `UniversalOuter` rows in order. For each outer row it
then reads the batch sizes and degree bits out of the configuration (`parse_outer_config`),
rebuilds from it the configurations of the UBV and Keccak circuits it aggregates
(`extract_ubv_and_keccak_configs`), looks them up in the two dicts, and writes a row of 28
columns: the outer circuit's metrics, and the UBV and Keccak metrics next to them, `NA` where
the lookup finds nothing.

The regular expressions are those of `UpaScripts.Python.Re`: `.*?` is `lazyStar`, `[^}]+` a
`plus`, and `(?:degree_bits|lookup_bits|limb_bits|num_limbs)` an `alt`. The two groups of
`degree_bits: (\d+), lookup_bits: (\d+)` are read as two patterns on the same pieces, one
group each. A search that finds nothing gives `None`, whose `.group(1)` raises
`AttributeError`; `re.search` on `None` raises `TypeError`; `int()` and `str()` raise past
4300 digits.
-/

set_option autoImplicit false

namespace UpaScripts.LogParsing

open UpaScripts.Python UpaScripts.Python.Csv

/-! ### Regular expressions -/

/-- `re.search(pattern, s)`, where `s` may be the `None` of a short row. -/
def reSearch (p : Pattern) : Option (List Char) → Except ScriptError (Option (List Char))
  | some s => .ok (p.search s)
  | none => .error .searchNone

/-- `m.group(1)` on the result of a search. -/
def group : Option (List Char) → Except ScriptError (List Char)
  | some g => .ok g
  | none => .error (.attributeError "group".toList)

/-- `int(s)`. -/
def pyInt (s : List Char) : Except ScriptError Int :=
  match intOfStr s with
  | .ok n => .ok n
  | .error e => .error (.intError e)

/-- `str(n)`, also what an f-string writes for an int. -/
def pyStr (n : Int) : Except ScriptError (List Char) :=
  match strOfIntChecked n with
  | .ok s => .ok s
  | .error e => .error (.intError e)

/-- `max_num_app_public_inputs: (\d+)`. -/
def maxNumAppPublicInputsPattern : Pattern :=
  ⟨lit "max_num_app_public_inputs: ", [.plus isDecimal], []⟩

/-- `section:.*?degree_bits: (\d+)`, for the sections `outer_config`, `bv_config` and
`keccak_config`. -/
def degreeBitsPattern (sectionName : String) : Pattern :=
  ⟨lit (sectionName ++ ":") ++ [.lazyStar (· ≠ '\n')] ++ lit "degree_bits: ", [.plus isDecimal], []⟩

/-- `bv_config: CircuitWithLimbsConfig { ([^}]+) }`. -/
def bvConfigPattern : Pattern :=
  ⟨lit "bv_config: CircuitWithLimbsConfig \x7b ", [.plus (· ≠ '\x7d')], lit " \x7d"⟩

/-- `(?:degree_bits|lookup_bits|limb_bits|num_limbs): (\d+)`. -/
def bvFieldPattern : Pattern :=
  ⟨.alt (["degree_bits", "lookup_bits", "limb_bits", "num_limbs"].map String.toList) ::
    lit ": ", [.plus isDecimal], []⟩

/-- `keccak_config: CircuitConfig { ([^}]+) }`. -/
def keccakConfigPattern : Pattern :=
  ⟨lit "keccak_config: CircuitConfig \x7b ", [.plus (· ≠ '\x7d')], lit " \x7d"⟩

/-- The first group of `degree_bits: (\d+), lookup_bits: (\d+)`. -/
def keccakDegreeBitsPattern : Pattern :=
  ⟨lit "degree_bits: ", [.plus isDecimal], lit ", lookup_bits: " ++ [.plus isDecimal]⟩

/-- The second group of `degree_bits: (\d+), lookup_bits: (\d+)`. -/
def keccakLookupBitsPattern : Pattern :=
  ⟨lit "degree_bits: " ++ [.plus isDecimal] ++ lit ", lookup_bits: ", [.plus isDecimal], []⟩

/-! ### `parse_outer_config` and `extract_ubv_and_keccak_configs` -/

/-- `parse_outer_config(configuration)`: the dict of the seven values it reads. -/
def parseOuterConfig (configuration : Option (List Char)) :
    Except ScriptError (Dict (List Char) (List Char)) := do
  let innerBatchSize ← group (← reSearch innerBatchSizePattern configuration)
  let outerBatchSize ← group (← reSearch outerBatchSizePattern configuration)
  let totalBatchSize := (← pyInt innerBatchSize) * (← pyInt outerBatchSize)
  let maxNumPublicInputs ← group (← reSearch maxNumAppPublicInputsPattern configuration)
  let outerDegreeBits ← group (← reSearch (degreeBitsPattern "outer_config") configuration)
  let ubvDegreeBits ← group (← reSearch (degreeBitsPattern "bv_config") configuration)
  let keccakDegreeBits ← group (← reSearch (degreeBitsPattern "keccak_config") configuration)
  let totalBatchSize ← pyStr totalBatchSize
  pure (Dict.ofList
    [("inner_batch_size".toList, innerBatchSize), ("outer_batch_size".toList, outerBatchSize),
      ("total_batch_size".toList, totalBatchSize),
      ("max_num_public_inputs".toList, maxNumPublicInputs),
      ("outer_degree_bits".toList, outerDegreeBits), ("ubv_degree_bits".toList, ubvDegreeBits),
      ("keccak_degree_bits".toList, keccakDegreeBits)])

/-- The UBV configuration string the f-string builds. -/
def ubvConfigString (degreeBits lookupBits limbBits numLimbs innerBatchSize
    maxNumAppPublicInputs : List Char) : List Char :=
  "UniversalBatchVerifierConfig \x7b degree_bits: ".toList ++ degreeBits ++
    ", lookup_bits: ".toList ++ lookupBits ++ ", limb_bits: ".toList ++ limbBits ++
    ", num_limbs: ".toList ++ numLimbs ++ ", inner_batch_size: ".toList ++ innerBatchSize ++
    ", max_num_public_inputs: ".toList ++ maxNumAppPublicInputs ++ " \x7d".toList

/-- The Keccak configuration string the f-string builds. -/
def keccakConfigString (degreeBits maxNumAppPublicInputs totalBatchSize lookupBits : List Char) :
    List Char :=
  "KeccakConfig \x7b degree_bits: ".toList ++ degreeBits ++ ", num_app_public_inputs: ".toList ++
    maxNumAppPublicInputs ++ ", total_batch_size: ".toList ++ totalBatchSize ++
    ", lookup_bits: ".toList ++ lookupBits ++ " \x7d".toList

/-- `extract_ubv_and_keccak_configs(upa_config)`: the UBV and the Keccak configuration an
outer configuration aggregates. -/
def extractUbvAndKeccakConfigs (upaConfig : Option (List Char)) :
    Except ScriptError (List Char × List Char) := do
  let maxNumAppPublicInputs ← group (← reSearch maxNumAppPublicInputsPattern upaConfig)
  let innerBatchSize ← group (← reSearch innerBatchSizePattern upaConfig)
  let outerBatchSize ← group (← reSearch outerBatchSizePattern upaConfig)
  let totalBatchSize := (← pyInt innerBatchSize) * (← pyInt outerBatchSize)
  let bvConfig ← group (← reSearch bvConfigPattern upaConfig)
  match bvFieldPattern.findall bvConfig with
  | [degreeBits, lookupBits, limbBits, numLimbs] =>
    let ubvConfig := ubvConfigString degreeBits lookupBits limbBits numLimbs innerBatchSize
      maxNumAppPublicInputs
    let keccakConfig ← group (← reSearch keccakConfigPattern upaConfig)
    match keccakDegreeBitsPattern.search keccakConfig,
      keccakLookupBitsPattern.search keccakConfig with
    | some degreeBitsKeccak, some lookupBitsKeccak =>
      let totalBatchSize ← pyStr totalBatchSize
      pure (ubvConfig, keccakConfigString degreeBitsKeccak maxNumAppPublicInputs totalBatchSize
        lookupBitsKeccak)
    | _, _ => .error (.attributeError "groups".toList)
  | fields => .error (.unpackError 4 fields.length)

/-! ### `compile_outer_proving_times` -/

/-- What the reading loop has built: `ubv_metrics`, `keccak_metrics` and `data`. -/
structure MetricsState where
  ubvMetrics : Dict (Option (List Char)) DictRow
  keccakMetrics : Dict (Option (List Char)) DictRow
  data : List DictRow

/-- The state before the reading loop. -/
def MetricsState.empty : MetricsState :=
  ⟨Dict.empty, Dict.empty, []⟩

/-- One iteration of the reading loop. -/
def collectRow (st : MetricsState) (row : DictRow) : Except ScriptError MetricsState := do
  let circuitName ← getItem row "circuit_name".toList
  if circuitName = some "UBV".toList then do
    let configuration ← getItem row "configuration".toList
    pure { st with ubvMetrics := st.ubvMetrics.set configuration row }
  else if circuitName = some "Keccak".toList then do
    let configuration ← getItem row "configuration".toList
    pure { st with keccakMetrics := st.keccakMetrics.set configuration row }
  else if circuitName = some "UniversalOuter".toList then
    pure { st with data := st.data ++ [row] }
  else pure st

/-- `d.get(key, default)` on a dict of a row. -/
def dictGet (d : Dict (List Char) (Option (List Char))) (key default : List Char) :
    Option (List Char) :=
  (d.get? key).getD (some default)

/-- The metrics copied for each circuit, in the order of the comprehensions. -/
def copiedMetrics : List (List Char) :=
  ["num_advice_cells", "num_advice_columns", "num_lookup_cells", "num_lookup_advice_columns",
    "num_fixed_columns"].map String.toList

/-- `new_row` for an outer row, with the dicts the reading loop built. -/
def newRow (ubvMetrics keccakMetrics : Dict (Option (List Char)) DictRow) (row : DictRow) :
    Except ScriptError (Dict (List Char) (Option (List Char))) := do
  let configDetails ← parseOuterConfig (← getItem row "configuration".toList)
  let upaConfig ← getItem row "configuration".toList
  let (ubvConfig, keccakConfig) ← extractUbvAndKeccakConfigs upaConfig
  let ubvRow := ((ubvMetrics.get? (some ubvConfig)).map DictRow.fields).getD Dict.empty
  let keccakRow := ((keccakMetrics.get? (some keccakConfig)).map DictRow.fields).getD Dict.empty
  let circuitName ← getItem row "circuit_name".toList
  let outerProvingTime ← getItem row "proving_time".toList
  pure (Dict.ofList
    (configDetails.entries.map (fun e => (e.1, some e.2)) ++
      [("circuit_name".toList, circuitName), ("configuration".toList, upaConfig),
        ("outer_proving_time".toList, outerProvingTime),
        ("gas_cost".toList, dictGet row.fields "gas_cost".toList "NA".toList),
        ("ubv_proving_time".toList, dictGet ubvRow "proving_time".toList "NA".toList),
        ("keccak_proving_time".toList, dictGet keccakRow "proving_time".toList "NA".toList)] ++
      copiedMetrics.map (fun k => ("ubv_".toList ++ k, dictGet ubvRow k "NA".toList)) ++
      copiedMetrics.map (fun k => ("keccak_".toList ++ k, dictGet keccakRow k "NA".toList)) ++
      copiedMetrics.map (fun k => ("outer_".toList ++ k, dictGet row.fields k "NA".toList))))

/-- `fieldnames` of `compile_outer_proving_times`. -/
def compileFieldnames : List (List Char) :=
  ["circuit_name", "inner_batch_size", "outer_batch_size", "total_batch_size",
    "max_num_public_inputs", "outer_degree_bits", "ubv_degree_bits", "keccak_degree_bits",
    "gas_cost", "outer_proving_time", "ubv_proving_time", "keccak_proving_time",
    "ubv_num_advice_cells", "ubv_num_advice_columns", "ubv_num_lookup_cells",
    "ubv_num_lookup_advice_columns", "ubv_num_fixed_columns", "keccak_num_advice_cells",
    "keccak_num_advice_columns", "keccak_num_lookup_cells", "keccak_num_lookup_advice_columns",
    "keccak_num_fixed_columns", "outer_num_advice_cells", "outer_num_advice_columns",
    "outer_num_lookup_cells", "outer_num_lookup_advice_columns", "outer_num_fixed_columns",
    "configuration"].map String.toList

/-- `compile_outer_proving_times(input_csv, output_csv)`: what a call does, and the exception
it ends with, if any. A value `None` is written as `''`. -/
def compileOuterProvingTimes (w : World) (inputCsv outputCsv : List Char) :
    List Effect × Option ScriptError :=
  match w.read inputCsv with
  | .error e => ([], some (.osError e))
  | .ok text =>
    let read := readText text
    match (dictRows read.1).foldlM collectRow MetricsState.empty, read.2 with
    | .error e, _ => ([], some e)
    | .ok _, some e => ([], some (.csvError e))
    | .ok st, none =>
      match st.data.mapM (newRow st.ubvMetrics st.keccakMetrics) with
      | .error e => ([], some e)
      | .ok processedData =>
        let written := writeToCsv (processedData.map (Dict.mapValues fun v => v.getD []))
          outputCsv compileFieldnames
        (written.1, written.2.map .writerError)

end UpaScripts.LogParsing
