import FoamDict.Keyword.Catalog

/-!
# The built-in catalog

The keywords of the case dictionaries, with the documentation that hover and completion show. The
order of the documentation is the order in which completions are offered.
-/

namespace FoamDict.Keyword

namespace Builtin

def dictionary : List String :=
  [ "FoamFile", "p", "pFinal", "U", "ddtSchemes", "gradSchemes", "divSchemes", "laplacianSchemes",
    "interpolationSchemes", "snGradSchemes", "solvers", "boundaryField", "PISO" ]

def list : List String :=
  [ "blocks", "vertices", "hex", "simpleGrading", "boundary", "faces" ]

def lvalue : List String :=
  [ "convertToMeters", "application", "startFrom", "startTime", "stopAt", "endTime", "deltaT",
    "timeStep", "writeControl", "writeInterval", "purgeWrite", "writeFormat", "writePrecision",
    "writeCompression", "timeFormat", "timePrecision", "runTimeModifiable", "default", "pRefCell",
    "pRefValue", "dimensions", "internalField", "nu", "type", "value", "format", "class",
    "object", "location", "nCorrectors", "nNonOrthogonalCorrectors", "tolerance", "relTol",
    "preconditioner", "solver", "smoother", "grad", "div", "phi" ]

def rvalue : List String :=
  [ "fixedValue", "zeroGradient", "empty", "calculated", "codedFixedValue", "uniform",
    "nonuniform", "noSlip", "PCG", "DIC", "smoothSolver", "symGaussSeidel", "GaussSeidel",
    "ascii", "dictionary", "fvSolution", "volScalarField", "off", "on", "general", "true",
    "false", "wall" ]

/-- The velocity field is documented under `u` and listed as `U`: hover on `U` finds nothing. -/
def documentation : List Documentation := [
  ⟨"FoamFile",
    "Standard header that stores file metadata: version, format, class, object, location."⟩,
  ⟨"convertToMeters",
    "Scaling factor that multiplies every vertex in blockMeshDict (e.g. 0.001 for mm)."⟩,
  ⟨"blocks", "Ordered list of hexahedral blocks: (vertex labels) (cells) grading."⟩,
  ⟨"vertices", "Coordinate list of all vertices referenced by blocks."⟩,
  ⟨"hex", "Keyword identifying a structured hexahedral block (8 corners)."⟩,
  ⟨"simpleGrading",
    "Expansion ratios (x y z) or multi-region tuples that stretch cells inside a block."⟩,
  ⟨"boundary", "Sub-dictionary that names each patch and its type inside blockMeshDict."⟩,
  ⟨"application", "Name of the solver or utility to execute when you run the case."⟩,
  ⟨"startFrom", "firstTime | latestTime | startTime – tells solver where to begin."⟩,
  ⟨"startTime", "Physical time at which the simulation starts when startFrom=startTime."⟩,
  ⟨"stopAt", "endTime | writeNow | noWriteNow | nextWrite – stopping criterion."⟩,
  ⟨"endTime", "Physical time when simulation stops if stopAt=endTime."⟩,
  ⟨"deltaT", "Time-step size (s)."⟩,
  ⟨"writeControl",
    "Event that triggers writing (timeStep, runTime, adjustableRunTime, cpuTime, clockTime)."⟩,
  ⟨"writeInterval", "Interval associated with writeControl (steps or seconds)."⟩,
  ⟨"purgeWrite", "Keep only N most recent time directories (0 disables purging)."⟩,
  ⟨"writeFormat", "ascii (default) or binary output format."⟩,
  ⟨"writePrecision", "Significant digits written when writeFormat=ascii."⟩,
  ⟨"writeCompression", "on/off switch for gzip compression of written files."⟩,
  ⟨"timeFormat", "fixed | scientific | general – numbering style of time directories."⟩,
  ⟨"timePrecision", "Digits used with timeFormat=fixed or scientific."⟩,
  ⟨"runTimeModifiable", "yes/no switch to reread dictionaries at every time step."⟩,
  ⟨"ddtSchemes", "Time-derivative discretisation schemes (Euler, backward, CrankNicolson, …)."⟩,
  ⟨"gradSchemes", "Gradient discretisation schemes (e.g. Gauss linear)."⟩,
  ⟨"divSchemes", "Divergence discretisation schemes (e.g. Gauss upwind)."⟩,
  ⟨"laplacianSchemes",
    "Laplacian discretisation schemes (requires an interpolation and snGrad scheme)."⟩,
  ⟨"interpolationSchemes", "Cell-centre to face interpolation schemes."⟩,
  ⟨"snGradSchemes", "Surface-normal gradient schemes."⟩,
  ⟨"solvers", "Linear-solver settings for each field (PCG, GAMG, smoothSolver …)."⟩,
  ⟨"dimensions", "SI base dimensions vector [M L T Θ I N J] of a field."⟩,
  ⟨"internalField", "Initial value of the field inside the domain (uniform or nonuniform)."⟩,
  ⟨"boundaryField", "Sub-dictionary defining the boundary condition for every patch."⟩,
  ⟨"type", "Boundary-condition or object type inside a sub-dictionary."⟩,
  ⟨"value", "Fixed value assigned by many boundary conditions (uniform or nonuniform list)."⟩,
  ⟨"PISO", "Sub-dictionary that holds nCorrectors, nNonOrthogonalCorrectors, etc. for PISO loop."⟩,
  ⟨"format", "Entry in FoamFile header declaring ascii or binary."⟩,
  ⟨"class", "Entry in FoamFile header giving C++ class (e.g. volVectorField)."⟩,
  ⟨"object", "Entry in FoamFile header giving the object/file name."⟩,
  ⟨"location", "Entry in FoamFile header giving relative path (e.g. \"system\")."⟩,
  ⟨"timeStep", "Function-object that can modify deltaT on-the-fly (e.g. coded setDeltaT)."⟩,
  ⟨"faces", "PolyMesh file listing vertex indices for every face in the mesh."⟩,
  ⟨"nCorrectors", "Number of pressure–velocity correction loops per time step."⟩,
  ⟨"nNonOrthogonalCorrectors",
    "Number of pressure equation corrections accounting for mesh non-orthogonality."⟩,
  ⟨"tolerance",
    "Absolute convergence criterion. Solver stops when the residual falls below this value."⟩,
  ⟨"relTol",
    "Relative convergence criterion. Solver will stop if residual drops by this factor " ++
    "relative to the initial residual of the current time step."⟩,
  ⟨"PCG", "Preconditioned Conjugate Gradient method"⟩,
  ⟨"preconditioner",
    "Improves convergence of the iterative solver by transforming the matrix system into an " ++
    "equivalent form that converges faster."⟩,
  ⟨"DIC",
    "Diagonal incomplete Cholesky preconditioner. Commonly used with PCG for pressure solves."⟩,
  ⟨"solver", "Specifies the main iterative solver algorithm."⟩,
  ⟨"smoothSolver",
    "smoothSolver is a flexible solver framework that wraps around various smoothing " ++
    "(relaxation) methods.\nIt’s often used for non-symmetric matrices (e.g., velocity " ++
    "equations). \nSuitable for cases where direct solvers are too expensive or not feasible."⟩,
  ⟨"smoother", "Defines the actual smoothing (relaxation) method used within smoothSolver"⟩,
  ⟨"symGaussSeidel",
    "Symmetric Gauss-Seidel smoothing. \nGauss-Seidel is a classic iterative method that " ++
    "updates variables sequentially. \nSymmetric version runs a forward and then a backward " ++
    "sweep through the matrix to improve convergence. \nIt’s more stable and accurate than " ++
    "simple Gauss-Seidel. \nOther possible values: GaussSeidel, DILU, DIC, none."⟩,
  ⟨"fixedValue",
    "Fixed value boundary condition. Other possible values: zeroGradient, empty, calculated, " ++
    "codedFixedValue, uniform, nonuniform, noSlip."⟩,
  ⟨"GaussSeidel",
    "Gauss-Seidel is a classic iterative method that updates variables sequentially. " ++
    "\nSymmetric version runs a forward and then a backward sweep through the matrix to " ++
    "improve convergence.\nOther possible values: GaussSeidel, DILU, DIC, none."⟩,
  ⟨"nu", "Kinemaic viscosity of the fluid."⟩,
  ⟨"p", "Kinematic pressure. Defined as static pressure/density."⟩,
  ⟨"u", "Velocity of the fluid."⟩,
  ⟨"grad", "Gradient operator"⟩,
  ⟨"div", "Divergence operator"⟩,
  ⟨"phi",
    "Flux through the cell (surfaceScalarField).\nFor incompressible flows phi=U. \nFor " ++
    "compressible flows phi=rho*U."⟩]

def sections : Sections := ⟨dictionary, list, lvalue, rvalue, documentation⟩

end Builtin

def Catalog.builtin : Catalog := Catalog.assemble Builtin.sections

end FoamDict.Keyword
