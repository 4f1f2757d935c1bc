import ResourceApi.Disk.Path

/-! # Options

What a run can be told: where schemas are found and the document goes, what is in
its `info` block, and how routes and bodies are made. -/

namespace ResourceApi

/-- The `info` block of a document. -/
structure ApiInfo where
  title : String := "Generated API server"
  description : String := "OpenAPI spec generated from JSON Schema"
  version : String := "1.0.0"
  deriving DecidableEq

structure Options where
  schemaDir : Path := ⟨.here, ["jsonSchema"]⟩
  outputDir : Path := ⟨.here, ["openapi"]⟩
  outputFile : String := "openapi.gen.yaml"
  /-- Whether requests that create or replace may give the identifier. -/
  allowIdentifier : Bool := false
  routePrefix : String := ""
  /-- Whether normalized schemas are written back. -/
  writeNormalized : Bool := true
  info : ApiInfo := {}
  deriving DecidableEq

/-- Where the document is written. -/
def Options.outputPath (o : Options) : Path := o.outputDir.join (.ofString o.outputFile)

/-- Options given apart from a file, which go before those of the file. -/
structure Overrides where
  schemaDir : Option Path := none
  outputDir : Option Path := none
  outputFile : Option String := none
  allowIdentifier : Option Bool := none
  routePrefix : Option String := none
  writeNormalized : Option Bool := none
  info : Option ApiInfo := none
  deriving DecidableEq

def Options.override (o : Options) (v : Overrides) : Options :=
  { o with
    schemaDir := v.schemaDir.getD o.schemaDir
    outputDir := v.outputDir.getD o.outputDir
    outputFile := v.outputFile.getD o.outputFile
    allowIdentifier := v.allowIdentifier.getD o.allowIdentifier
    routePrefix := v.routePrefix.getD o.routePrefix
    writeNormalized := v.writeNormalized.getD o.writeNormalized
    info := v.info.getD o.info }

end ResourceApi
