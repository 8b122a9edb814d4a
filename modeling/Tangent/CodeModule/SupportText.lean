import Tangent.CodeModule.Support

/-!
# The C text of the support routines
-/

namespace Tangent.CodeModule.Support

/-- The lines of a support routine. -/
def lines : Support → List String
  | copy => [
      "void SX_PREFIX(copy)(const real_t* x, int n, real_t* y) \x7b",
      "  int i;",
      "  if (!y) return;",
      "  if (x) \x7b",
      "    for (i=0; i<n; ++i) *y++ = *x++;",
      "  \x7d else \x7b",
      "    for (i=0; i<n; ++i) *y++ = 0.;",
      "  \x7d",
      "\x7d",
      "#define copy(x, n, y) SX_PREFIX(copy)(x, n, y)"]
  | swap => [
      "void SX_PREFIX(swap)(int n, real_t* x, real_t* y) \x7b",
      "  real_t t;",
      "  int i;",
      "  for (i=0; i<n; ++i) \x7b",
      "    t = x[i];",
      "    x[i] = y[i];",
      "    y[i] = t;",
      "  \x7d",
      "\x7d",
      "#define swap(n, x, y) SX_PREFIX(swap)(n, x, y)"]
  | scal => [
      "void SX_PREFIX(scal)(int n, real_t alpha, real_t* x) \x7b",
      "  int i;",
      "  for (i=0; i<n; ++i) x[i] *= alpha;",
      "\x7d",
      "#define scal(n, alpha, x) SX_PREFIX(scal)(n, alpha, x)"]
  | axpy => [
      "void SX_PREFIX(axpy)(int n, real_t alpha, const real_t* x, real_t* y) \x7b",
      "  int i;",
      "  for (i=0; i<n; ++i) y[i] += alpha*x[i];",
      "\x7d",
      "#define axpy(n, alpha, x, y) SX_PREFIX(axpy)(n, alpha, x, y)"]
  | dot => [
      "real_t SX_PREFIX(dot)(int n, const real_t* x, const real_t* y) \x7b",
      "  real_t r = 0;",
      "  int i;",
      "  for (i=0; i<n; ++i) r += x[i]*y[i];",
      "  return r;",
      "\x7d",
      "#define dot(n, x, y) SX_PREFIX(dot)(n, x, y)"]
  | bilin => [
      "real_t SX_PREFIX(bilin)(const real_t* A, const int* sp_A, const real_t* x, const real_t* y) \x7b",
      "  int ncol = sp_A[1], c, k;",
      "  real_t r = 0;",
      "  for (c=0; c<ncol; ++c) \x7b",
      "    for (k=SX_COLBEGIN(sp_A, c); k<SX_COLEND(sp_A, c); ++k) \x7b",
      "      r += x[SX_ROW(sp_A, c, k)]*A[k]*y[c];",
      "    \x7d",
      "  \x7d",
      "  return r;",
      "\x7d",
      "#define bilin(A, sp_A, x, y) SX_PREFIX(bilin)(A, sp_A, x, y)"]
  | rank1 => [
      "void SX_PREFIX(rank1)(real_t* A, const int* sp_A, real_t alpha, const real_t* x, const real_t* y) \x7b",
      "  int ncol = sp_A[1], c, k;",
      "  for (c=0; c<ncol; ++c) \x7b",
      "    for (k=SX_COLBEGIN(sp_A, c); k<SX_COLEND(sp_A, c); ++k) \x7b",
      "      A[k] += alpha*x[SX_ROW(sp_A, c, k)]*y[c];",
      "    \x7d",
      "  \x7d",
      "\x7d",
      "#define rank1(A, sp_A, alpha, x, y) SX_PREFIX(rank1)(A, sp_A, alpha, x, y)"]
  | asum => [
      "real_t SX_PREFIX(asum)(int n, const real_t* x) \x7b",
      "  real_t r = 0;",
      "  int i;",
      "  for (i=0; i<n; ++i) r += fabs(x[i]);",
      "  return r;",
      "\x7d",
      "#define asum(n, x) SX_PREFIX(asum)(n, x)"]
  | iamax => [
      "int SX_PREFIX(iamax)(int n, const real_t* x) \x7b",
      "  real_t t, m = -1;",
      "  int i, r = -1;",
      "  for (i=0; i<n; ++i) \x7b",
      "    t = fabs(x[i]);",
      "    if (t>m) \x7b",
      "      m = t;",
      "      r = i;",
      "    \x7d",
      "  \x7d",
      "  return r;",
      "\x7d",
      "#define iamax(n, x) SX_PREFIX(iamax)(n, x)"]
  | nrm2 => [
      "real_t SX_PREFIX(nrm2)(int n, const real_t* x) \x7b",
      "  real_t r = 0;",
      "  int i;",
      "  for (i=0; i<n; ++i) r += x[i]*x[i];",
      "  return sqrt(r);",
      "\x7d",
      "#define nrm2(n, x) SX_PREFIX(nrm2)(n, x)"]
  | fill => [
      "void SX_PREFIX(fill)(real_t* x, int n, real_t alpha) \x7b",
      "  int i;",
      "  if (!x) return;",
      "  for (i=0; i<n; ++i) *x++ = alpha;",
      "\x7d",
      "#define fill(x, n, alpha) SX_PREFIX(fill)(x, n, alpha)"]
  | mtimes => [
      "void SX_PREFIX(mtimes)(const real_t* x, const int* sp_x, const real_t* y, const int* sp_y,",
      "                       real_t* z, const int* sp_z, real_t* w, int tr) \x7b",
      "  int nrow_y = sp_y[0], ncol_y = sp_y[1], ncol_z = sp_z[1], c, r, k, k1;",
      "  if (tr) \x7b",
      "    for (c=0; c<ncol_z; ++c) \x7b",
      "      for (r=0; r<nrow_y; ++r) w[r] = 0;",
      "      for (k=SX_COLBEGIN(sp_y, c); k<SX_COLEND(sp_y, c); ++k) w[SX_ROW(sp_y, c, k)] = y[k];",
      "      for (k=SX_COLBEGIN(sp_z, c); k<SX_COLEND(sp_z, c); ++k) \x7b",
      "        r = SX_ROW(sp_z, c, k);",
      "        for (k1=SX_COLBEGIN(sp_x, r); k1<SX_COLEND(sp_x, r); ++k1) \x7b",
      "          z[k] += x[k1]*w[SX_ROW(sp_x, r, k1)];",
      "        \x7d",
      "      \x7d",
      "    \x7d",
      "    return;",
      "  \x7d",
      "  for (c=0; c<ncol_y; ++c) \x7b",
      "    for (k=SX_COLBEGIN(sp_z, c); k<SX_COLEND(sp_z, c); ++k) w[SX_ROW(sp_z, c, k)] = z[k];",
      "    for (k=SX_COLBEGIN(sp_y, c); k<SX_COLEND(sp_y, c); ++k) \x7b",
      "      r = SX_ROW(sp_y, c, k);",
      "      for (k1=SX_COLBEGIN(sp_x, r); k1<SX_COLEND(sp_x, r); ++k1) \x7b",
      "        w[SX_ROW(sp_x, r, k1)] += x[k1]*y[k];",
      "      \x7d",
      "    \x7d",
      "    for (k=SX_COLBEGIN(sp_z, c); k<SX_COLEND(sp_z, c); ++k) z[k] = w[SX_ROW(sp_z, c, k)];",
      "  \x7d",
      "\x7d",
      "#define mtimes(x, sp_x, y, sp_y, z, sp_z, w, tr) SX_PREFIX(mtimes)(x, sp_x, y, sp_y, z, sp_z, w, tr)"]
  | sq => [
      "real_t SX_PREFIX(sq)(real_t x) \x7b return x*x;\x7d",
      "#define sq(x) SX_PREFIX(sq)(x)"]
  | sign => [
      "real_t SX_PREFIX(sign)(real_t x) \x7b return x<0 ? -1 : x>0 ? 1 : x;\x7d",
      "#define sign(x) SX_PREFIX(sign)(x)"]
  | project => [
      "void SX_PREFIX(project)(const real_t* x, const int* sp_x, real_t* y, const int* sp_y, real_t* w) \x7b",
      "  int ncol = sp_x[1], c, k;",
      "  for (c=0; c<ncol; ++c) \x7b",
      "    for (k=SX_COLBEGIN(sp_y, c); k<SX_COLEND(sp_y, c); ++k) w[SX_ROW(sp_y, c, k)] = 0;",
      "    for (k=SX_COLBEGIN(sp_x, c); k<SX_COLEND(sp_x, c); ++k) w[SX_ROW(sp_x, c, k)] = x[k];",
      "    for (k=SX_COLBEGIN(sp_y, c); k<SX_COLEND(sp_y, c); ++k) y[k] = w[SX_ROW(sp_y, c, k)];",
      "  \x7d",
      "\x7d",
      "#define project(x, sp_x, y, sp_y, w) SX_PREFIX(project)(x, sp_x, y, sp_y, w)"]
  | trans => [
      "void SX_PREFIX(trans)(const real_t* x, const int* sp_x, real_t* y, const int* sp_y, int* tmp) \x7b",
      "  int ncol_x = sp_x[1], ncol_y = sp_y[1], c, k;",
      "  for (c=0; c<ncol_y; ++c) tmp[c] = SX_COLBEGIN(sp_y, c);",
      "  for (c=0; c<ncol_x; ++c) \x7b",
      "    for (k=SX_COLBEGIN(sp_x, c); k<SX_COLEND(sp_x, c); ++k) \x7b",
      "      y[tmp[SX_ROW(sp_x, c, k)]++] = x[k];",
      "    \x7d",
      "  \x7d",
      "\x7d",
      "#define trans(x, sp_x, y, sp_y, tmp) SX_PREFIX(trans)(x, sp_x, y, sp_y, tmp)"]
  | toMex => [
      "#ifdef MATLAB_MEX_FILE",
      "mxArray* SX_PREFIX(to_mex)(const int* sp, const real_t* x) \x7b",
      "  int nrow = sp[0], ncol = sp[1], nnz = SX_NNZ(sp), c, k;",
      "  mxArray* p = mxCreateSparse(nrow, ncol, nnz, mxREAL);",
      "  mwIndex* jc = mxGetJc(p);",
      "  mwIndex* ir = mxGetIr(p);",
      "  for (c=0; c<ncol; ++c) \x7b",
      "    jc[c] = SX_COLBEGIN(sp, c);",
      "    for (k=SX_COLBEGIN(sp, c); k<SX_COLEND(sp, c); ++k) ir[k] = SX_ROW(sp, c, k);",
      "  \x7d",
      "  jc[ncol] = nnz;",
      "  if (x) \x7b",
      "    double* d = (double*)mxGetData(p);",
      "    for (k=0; k<nnz; ++k) *d++ = to_double(*x++);",
      "  \x7d",
      "  return p;",
      "\x7d",
      "#define to_mex(sp, x) SX_PREFIX(to_mex)(sp, x)",
      "#endif"]
  | fromMex => [
      "#ifdef MATLAB_MEX_FILE",
      "real_t* SX_PREFIX(from_mex)(const mxArray* p, real_t* y, const int* sp, real_t* w) \x7b",
      "  int nrow = sp[0], ncol = sp[1], nnz = SX_NNZ(sp), r, c, k, tr = 0;",
      "  size_t p_nrow, p_ncol;",
      "  const double* p_data;",
      "  int is_sparse;",
      "  mwIndex *jc, *ir;",
      "  if (!mxIsDouble(p) || mxGetNumberOfDimensions(p)!=2)",
      "    mexErrMsgIdAndTxt(\"SX:RuntimeError\", \"\\\"from_mex\\\" failed: Not a two-dimensional matrix of double precision.\");",
      "  p_nrow = mxGetM(p);",
      "  p_ncol = mxGetN(p);",
      "  p_data = (const double*)mxGetData(p);",
      "  is_sparse = mxIsSparse(p);",
      "  jc = is_sparse ? mxGetJc(p) : 0;",
      "  ir = is_sparse ? mxGetIr(p) : 0;",
      "  if (p_nrow==1 && p_ncol==1) \x7b",
      "    fill(y, nnz, is_sparse && jc[1]==0 ? 0 : *p_data);",
      "    return y;",
      "  \x7d",
      "  if (nrow!=p_nrow || ncol!=p_ncol) \x7b",
      "    tr = nrow==p_ncol && ncol==p_nrow && (nrow==1 || ncol==1);",
      "    if (!tr) mexErrMsgIdAndTxt(\"SX:RuntimeError\", \"\\\"from_mex\\\" failed: Dimension mismatch.\");",
      "  \x7d",
      "  if (!is_sparse) \x7b",
      "    for (c=0; c<ncol; ++c) \x7b",
      "      for (k=SX_COLBEGIN(sp, c); k<SX_COLEND(sp, c); ++k) y[k] = p_data[SX_ROW(sp, c, k)+c*nrow];",
      "    \x7d",
      "    return y;",
      "  \x7d",
      "  for (c=0; c<ncol; ++c) \x7b",
      "    for (k=SX_COLBEGIN(sp, c); k<SX_COLEND(sp, c); ++k) w[SX_ROW(sp, c, k)+c*nrow] = 0;",
      "  \x7d",
      "  for (c=0; c<p_ncol; ++c) \x7b",
      "    for (k=jc[c]; k<jc[c+1]; ++k) \x7b",
      "      r = ir[k];",
      "      w[tr ? c+r*p_ncol : r+c*nrow] = p_data[k];",
      "    \x7d",
      "  \x7d",
      "  for (c=0; c<ncol; ++c) \x7b",
      "    for (k=SX_COLBEGIN(sp, c); k<SX_COLEND(sp, c); ++k) y[k] = w[SX_ROW(sp, c, k)+c*nrow];",
      "  \x7d",
      "  return y;",
      "\x7d",
      "#define from_mex(p, y, sp, w) SX_PREFIX(from_mex)(p, y, sp, w)",
      "#endif"]
  | erfinv => [
      "real_t SX_PREFIX(erfinv)(real_t x) \x7b",
      "  /* Giles' single precision approximation refined by two Newton steps. */",
      "  real_t w, p, y;",
      "  if (x<=-1) return x==-1 ? -INFINITY : NAN;",
      "  if (x>=1) return x==1 ? INFINITY : NAN;",
      "  w = -log((1-x)*(1+x));",
      "  if (w<5) \x7b",
      "    w -= 2.5;",
      "    p = 2.81022636e-08;",
      "    p = 3.43273939e-07 + p*w;",
      "    p = -3.5233877e-06 + p*w;",
      "    p = -4.39150654e-06 + p*w;",
      "    p = 0.00021858087 + p*w;",
      "    p = -0.00125372503 + p*w;",
      "    p = -0.00417768164 + p*w;",
      "    p = 0.246640727 + p*w;",
      "    p = 1.50140941 + p*w;",
      "  \x7d else \x7b",
      "    w = sqrt(w) - 3;",
      "    p = -0.000200214257;",
      "    p = 0.000100950558 + p*w;",
      "    p = 0.00134934322 + p*w;",
      "    p = -0.00367342844 + p*w;",
      "    p = 0.00573950773 + p*w;",
      "    p = -0.0076224613 + p*w;",
      "    p = 0.00943887047 + p*w;",
      "    p = 1.00167406 + p*w;",
      "    p = 2.83297682 + p*w;",
      "  \x7d",
      "  y = p*x;",
      "  y -= (erf(y) - x)/(1.1283791670955126*exp(-y*y));",
      "  y -= (erf(y) - x)/(1.1283791670955126*exp(-y*y));",
      "  return y;",
      "\x7d",
      "#define erfinv(x) SX_PREFIX(erfinv)(x)"]
  | printme => [
      "real_t SX_PREFIX(printme)(real_t x, real_t y) \x7b",
      "  PRINTF(\"|> %d: %.16e\\n\", to_int(y), to_double(x));",
      "  return x;",
      "\x7d",
      "#define printme(x, y) SX_PREFIX(printme)(x, y)"]
  | sparsity => [
      "#ifndef SX_NNZ",
      "#define SX_NNZ(sp) ((sp)[2]==1 ? (sp)[0]*(sp)[1] : (sp)[2+(sp)[1]])",
      "#define SX_COLBEGIN(sp, c) ((sp)[2]==1 ? (c)*(sp)[0] : (sp)[2+(c)])",
      "#define SX_COLEND(sp, c) ((sp)[2]==1 ? ((c)+1)*(sp)[0] : (sp)[3+(c)])",
      "#define SX_ROW(sp, c, k) ((sp)[2]==1 ? (k)-(c)*(sp)[0] : (sp)[3+(sp)[1]+(k)])",
      "#endif /* SX_NNZ */"]

/-- The text of a support routine. -/
def text (s : Support) : String :=
  String.join (s.lines.map (· ++ "\n"))

end Tangent.CodeModule.Support
